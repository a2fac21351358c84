import WashController.Proofs.Effects

/-!
# The rules of execution

What each instruction does, as rules. `Executes` has a rule for every way in which an instruction
is carried out, with its event and the machine that it leaves, and `Refuses` one for every way in
which it faults. `execute_eq_ok_iff` and `execute_eq_error_iff` say that an instruction does what
the rules say and nothing else. Statements about instructions are proved by cases on the rules, so
that this is the one place that takes the instructions themselves apart.
-/

namespace WashController

variable {α : Type}

/-! ## The rules -/

section Rules

variable [Arithmetic α]

/-- How instructions are carried out: the event that an instruction amounts to on a machine, and
the machine that it leaves. The program counter is not moved. -/
inductive Executes (labels : LabelTable) (machine : Machine α) :
    Instruction → Event α → Machine α → Prop
  | pushLiteral {value stack} :
    machine.stack.push (Arithmetic.ofWord value) = .ok stack →
    Executes labels machine (.pushLiteral value) .advanced { machine with stack := stack }
  | pushVariable {name value stack} :
    machine.memory.get? name = some value → machine.stack.push value = .ok stack →
    Executes labels machine (.pushVariable name) .advanced { machine with stack := stack }
  | push {source stack} :
    machine.stack.push (machine.registers.get source) = .ok stack →
    Executes labels machine (.push (some source)) .advanced { machine with stack := stack }
  | pushNothing : Executes labels machine (.push none) .advanced machine
  | pop {target value stack} :
    machine.stack.pop = .ok (value, stack) →
    Executes labels machine (.pop (some target)) .advanced
      { machine with registers := machine.registers.set target value, stack := stack }
  | popNothing : Executes labels machine (.pop none) .advanced machine
  | load {target name value} :
    machine.memory.get? name = some value →
    Executes labels machine (.load target name) .advanced
      { machine with registers := machine.registers.write target value }
  | store {name value memory} :
    machine.memory.store name (machine.registers.evaluate value) = .ok memory →
    Executes labels machine (.store name value) .advanced { machine with memory := memory }
  | alloc {name memory} :
    machine.memory.alloc name = .ok memory →
    Executes labels machine (.alloc name) .advanced { machine with memory := memory }
  | binary {operation result} :
    operation.result? machine.registers.r0 machine.registers.r1 = some result →
    Executes labels machine (.binary operation (some .r0) (some .r1)) .advanced
      { machine with registers := machine.registers.set .r0 result }
  | binaryNothing {operation left right} :
    ¬ (left = some .r0 ∧ right = some .r1) →
    Executes labels machine (.binary operation left right) .advanced machine
  | subLiteral {value} :
    Executes labels machine (.subLiteral (some .r0) value) .advanced
      { machine with
        registers := machine.registers.set .r0
          (Arithmetic.sub machine.registers.r0 (Arithmetic.ofWord value)) }
  | subLiteralNothing {target value} :
    target ≠ some .r0 → Executes labels machine (.subLiteral target value) .advanced machine
  | compare {left right} :
    Executes labels machine (.compare left right) .advanced
      { machine with
        registers := machine.registers.set .r0 (Arithmetic.ofOrdering (Arithmetic.order
          (machine.registers.evaluate left) (machine.registers.evaluate right))) }
  | set {relation} :
    Executes labels machine (.set relation) .advanced
      { machine with
        registers := machine.registers.set .r0
          (Arithmetic.ofTruth (relation.holds (Arithmetic.sign machine.registers.r0))) }
  | and :
    Executes labels machine .and .advanced
      { machine with
        registers := machine.registers.set .r0 (Arithmetic.ofTruth
          (Arithmetic.truth machine.registers.r0 && Arithmetic.truth machine.registers.r1)) }
  | or :
    Executes labels machine .or .advanced
      { machine with
        registers := machine.registers.set .r0 (Arithmetic.ofTruth
          (Arithmetic.truth machine.registers.r0 || Arithmetic.truth machine.registers.r1)) }
  | not :
    Executes labels machine .not .advanced
      { machine with
        registers := machine.registers.set .r0
          (Arithmetic.ofTruth (! Arithmetic.truth machine.registers.r0)) }
  | jump {condition label target} :
    condition.holds (Arithmetic.sign machine.registers.r0) = true →
    labels.get? label = some target →
    Executes labels machine (.jump condition label) (.jumped target) machine
  | jumpNothing {condition label} :
    condition.holds (Arithmetic.sign machine.registers.r0) = false →
    Executes labels machine (.jump condition label) .advanced machine
  | read {target sensor reading} :
    machine.sensors.read? sensor = some reading →
    Executes labels machine (.read target sensor) .advanced
      { machine with registers := machine.registers.write target (Arithmetic.ofWord reading) }
  | emit {actuator} :
    Executes labels machine (.emit actuator) (.emitted actuator machine.registers.r0) machine
  | wait :
    Executes labels machine .wait
      (.waited machine.registers.r0 (Arithmetic.add machine.ticks machine.registers.r0))
      { machine with ticks := Arithmetic.add machine.ticks machine.registers.r0 }
  | halt : Executes labels machine .halt .halted machine

/-- How instructions fault. -/
inductive Refuses (labels : LabelTable) (machine : Machine α) : Instruction → Fault → Prop
  | pushLiteral {value fault} :
    machine.stack.push (Arithmetic.ofWord value) = .error fault →
    Refuses labels machine (.pushLiteral value) fault
  | pushUndefined {name} :
    machine.memory.get? name = none →
    Refuses labels machine (.pushVariable name) (.undefinedVariable name)
  | pushVariable {name value fault} :
    machine.memory.get? name = some value → machine.stack.push value = .error fault →
    Refuses labels machine (.pushVariable name) fault
  | push {source fault} :
    machine.stack.push (machine.registers.get source) = .error fault →
    Refuses labels machine (.push (some source)) fault
  | pop {target fault} :
    machine.stack.pop = .error fault → Refuses labels machine (.pop (some target)) fault
  | load {target name} :
    machine.memory.get? name = none →
    Refuses labels machine (.load target name) (.undefinedVariable name)
  | store {name value fault} :
    machine.memory.store name (machine.registers.evaluate value) = .error fault →
    Refuses labels machine (.store name value) fault
  | alloc {name fault} :
    machine.memory.alloc name = .error fault → Refuses labels machine (.alloc name) fault
  | binary {operation} :
    operation.result? machine.registers.r0 machine.registers.r1 = none →
    Refuses labels machine (.binary operation (some .r0) (some .r1)) .divisionByZero
  | jump {condition label} :
    condition.holds (Arithmetic.sign machine.registers.r0) = true → labels.get? label = none →
    Refuses labels machine (.jump condition label) (.undefinedLabel label)
  | read {target sensor} :
    machine.sensors.read? sensor = none →
    Refuses labels machine (.read target sensor) (.undefinedSensor sensor)
  | unknown {opcode} : Refuses labels machine (.unknown opcode) (.unknownOpcode opcode)

variable {labels : LabelTable} {machine after : Machine α} {instruction : Instruction}

/-! ## The rules say what instructions do -/

/-- Arithmetic with other registers than R0 and R1, in this order, does nothing. -/
theorem execute_binary_of_other (labels : LabelTable) (operation : BinaryOp) {left right : Slot}
    (other : ¬ (left = some .r0 ∧ right = some .r1)) :
    execute labels (.binary operation left right) = (pure .advanced : Effect α (Event α)) := by
  unfold execute
  split <;> simp_all

/-- A literal is subtracted from R0 only. -/
theorem execute_subLiteral_of_other (labels : LabelTable) {target : Slot} (value : Word)
    (other : target ≠ some .r0) :
    execute labels (.subLiteral target value) = (pure .advanced : Effect α (Event α)) := by
  unfold execute
  split <;> simp_all

theorem Executes.of_execute {event : Event α}
    (done : execute labels instruction machine = .ok event after) :
    Executes labels machine instruction event after := by
  cases instruction with
  | pushLiteral value =>
      simp only [execute, bind_eq_ok_iff, Effect.push_eq_ok_iff, pure_eq_ok_iff] at done
      obtain ⟨-, _, ⟨stack, pushed, rfl⟩, rfl, rfl⟩ := done
      exact .pushLiteral pushed
  | pushVariable name =>
      simp only [execute, bind_eq_ok_iff, Effect.variableValue_eq_ok_iff, Effect.push_eq_ok_iff,
        pure_eq_ok_iff] at done
      obtain ⟨value, _, ⟨found, rfl⟩, -, _, ⟨stack, pushed, rfl⟩, rfl, rfl⟩ := done
      exact .pushVariable found pushed
  | push source =>
      cases source with
      | none =>
          obtain ⟨rfl, rfl⟩ := pure_eq_ok_iff.1 done
          exact .pushNothing
      | some source =>
          simp only [execute, bind_eq_ok_iff, Effect.register_eq_ok_iff, Effect.push_eq_ok_iff,
            pure_eq_ok_iff] at done
          obtain ⟨_, _, ⟨rfl, rfl⟩, -, _, ⟨stack, pushed, rfl⟩, rfl, rfl⟩ := done
          exact .push pushed
  | pop target =>
      cases target with
      | none =>
          obtain ⟨rfl, rfl⟩ := pure_eq_ok_iff.1 done
          exact .popNothing
      | some target =>
          simp only [execute, bind_eq_ok_iff, Effect.pop_eq_ok_iff, Effect.write_eq_ok_iff,
            pure_eq_ok_iff] at done
          obtain ⟨value, _, ⟨stack, popped, rfl⟩, -, _, rfl, rfl, rfl⟩ := done
          exact .pop popped
  | load target name =>
      simp only [execute, bind_eq_ok_iff, Effect.variableValue_eq_ok_iff, Effect.write_eq_ok_iff,
        pure_eq_ok_iff] at done
      obtain ⟨value, _, ⟨found, rfl⟩, -, _, rfl, rfl, rfl⟩ := done
      exact .load found
  | store name value =>
      simp only [execute, bind_eq_ok_iff, Effect.evaluate_eq_ok_iff, Effect.remember_eq_ok_iff,
        pure_eq_ok_iff] at done
      obtain ⟨_, _, ⟨rfl, rfl⟩, -, _, ⟨memory, stored, rfl⟩, rfl, rfl⟩ := done
      exact .store stored
  | alloc name =>
      simp only [execute, bind_eq_ok_iff, Effect.remember_eq_ok_iff, pure_eq_ok_iff] at done
      obtain ⟨-, _, ⟨memory, allocated, rfl⟩, rfl, rfl⟩ := done
      exact .alloc allocated
  | binary operation left right =>
      by_cases slots : left = some .r0 ∧ right = some .r1
      · obtain ⟨rfl, rfl⟩ := slots
        simp only [execute, bind_eq_ok_iff, Effect.register_eq_ok_iff, Effect.compute_eq_ok_iff,
          Effect.write_eq_ok_iff, pure_eq_ok_iff] at done
        obtain ⟨_, _, ⟨rfl, rfl⟩, _, _, ⟨rfl, rfl⟩, result, _, ⟨computed, rfl⟩, -, _, rfl, rfl,
          rfl⟩ := done
        exact .binary computed
      · rw [execute_binary_of_other labels operation slots] at done
        obtain ⟨rfl, rfl⟩ := pure_eq_ok_iff.1 done
        exact .binaryNothing slots
  | subLiteral target value =>
      by_cases slot : target = some .r0
      · subst slot
        simp only [execute, bind_eq_ok_iff, Effect.register_eq_ok_iff, Effect.write_eq_ok_iff,
          pure_eq_ok_iff] at done
        obtain ⟨_, _, ⟨rfl, rfl⟩, -, _, rfl, rfl, rfl⟩ := done
        exact .subLiteral
      · rw [execute_subLiteral_of_other labels value slot] at done
        obtain ⟨rfl, rfl⟩ := pure_eq_ok_iff.1 done
        exact .subLiteralNothing slot
  | compare left right =>
      simp only [execute, bind_eq_ok_iff, Effect.evaluate_eq_ok_iff, Effect.write_eq_ok_iff,
        pure_eq_ok_iff] at done
      obtain ⟨_, _, ⟨rfl, rfl⟩, _, _, ⟨rfl, rfl⟩, -, _, rfl, rfl, rfl⟩ := done
      exact .compare
  | set relation =>
      simp only [execute, bind_eq_ok_iff, Effect.register_eq_ok_iff, Effect.write_eq_ok_iff,
        pure_eq_ok_iff] at done
      obtain ⟨_, _, ⟨rfl, rfl⟩, -, _, rfl, rfl, rfl⟩ := done
      exact .set
  | and =>
      simp only [execute, bind_eq_ok_iff, Effect.register_eq_ok_iff, Effect.write_eq_ok_iff,
        pure_eq_ok_iff] at done
      obtain ⟨_, _, ⟨rfl, rfl⟩, _, _, ⟨rfl, rfl⟩, -, _, rfl, rfl, rfl⟩ := done
      exact .and
  | or =>
      simp only [execute, bind_eq_ok_iff, Effect.register_eq_ok_iff, Effect.write_eq_ok_iff,
        pure_eq_ok_iff] at done
      obtain ⟨_, _, ⟨rfl, rfl⟩, _, _, ⟨rfl, rfl⟩, -, _, rfl, rfl, rfl⟩ := done
      exact .or
  | not =>
      simp only [execute, bind_eq_ok_iff, Effect.register_eq_ok_iff, Effect.write_eq_ok_iff,
        pure_eq_ok_iff] at done
      obtain ⟨_, _, ⟨rfl, rfl⟩, -, _, rfl, rfl, rfl⟩ := done
      exact .not
  | jump condition label =>
      simp only [execute, bind_eq_ok_iff, Effect.register_eq_ok_iff, Effect.branch_eq_ok_iff]
        at done
      rcases done with ⟨_, _, ⟨rfl, rfl⟩, rfl, ⟨untaken, rfl⟩ | ⟨taken, target, found, rfl⟩⟩
      · exact .jumpNothing untaken
      · exact .jump taken found
  | read target sensor =>
      simp only [execute, bind_eq_ok_iff, Effect.sense_eq_ok_iff, Effect.write_eq_ok_iff,
        pure_eq_ok_iff] at done
      obtain ⟨_, _, ⟨reading, found, rfl, rfl⟩, -, _, rfl, rfl, rfl⟩ := done
      exact .read found
  | emit actuator =>
      simp only [execute, bind_eq_ok_iff, Effect.register_eq_ok_iff, pure_eq_ok_iff] at done
      obtain ⟨_, _, ⟨rfl, rfl⟩, rfl, rfl⟩ := done
      exact .emit
  | wait =>
      simp only [execute, bind_eq_ok_iff, Effect.register_eq_ok_iff, Effect.spend_eq_ok_iff,
        pure_eq_ok_iff] at done
      obtain ⟨_, _, ⟨rfl, rfl⟩, _, _, ⟨rfl, rfl⟩, rfl, rfl⟩ := done
      exact .wait
  | halt =>
      obtain ⟨rfl, rfl⟩ := pure_eq_ok_iff.1 done
      exact .halt
  | unknown opcode => exact absurd done throw_ne_ok

theorem Executes.execute_eq {event : Event α}
    (rule : Executes labels machine instruction event after) :
    execute labels instruction machine = .ok event after := by
  cases rule with
  | binaryNothing other =>
      rw [execute_binary_of_other labels _ other]
      exact pure_eq_ok_iff.2 ⟨rfl, rfl⟩
  | subLiteralNothing other =>
      rw [execute_subLiteral_of_other labels _ other]
      exact pure_eq_ok_iff.2 ⟨rfl, rfl⟩
  | _ =>
      simp_all [execute, bind_eq_ok_iff, Registers.get, Registers.write, and_assoc,
        -bind_pure_comp]

/-- An instruction is carried out exactly as the rules say. -/
theorem execute_eq_ok_iff {event : Event α} :
    execute labels instruction machine = .ok event after ↔
      Executes labels machine instruction event after :=
  ⟨Executes.of_execute, Executes.execute_eq⟩

theorem Refuses.of_execute {fault : Fault}
    (failed : execute labels instruction machine = .error fault after) :
    Refuses labels machine instruction fault ∧ after = machine := by
  cases instruction with
  | pushLiteral value =>
      simp only [execute, bind_eq_error_iff, Effect.push_eq_error_iff, pure_ne_error, and_false,
        exists_false, or_false] at failed
      obtain ⟨refused, rfl⟩ := failed
      exact ⟨.pushLiteral refused, rfl⟩
  | pushVariable name =>
      simp only [execute, bind_eq_error_iff, Effect.variableValue_eq_error_iff,
        Effect.variableValue_eq_ok_iff, Effect.push_eq_error_iff, pure_ne_error, and_false,
        exists_false, or_false] at failed
      rcases failed with ⟨missing, rfl, rfl⟩ | ⟨value, _, ⟨found, rfl⟩, refused, rfl⟩
      · exact ⟨.pushUndefined missing, rfl⟩
      · exact ⟨.pushVariable found refused, rfl⟩
  | push source =>
      cases source with
      | none => exact absurd failed pure_ne_error
      | some source =>
          simp only [execute, bind_eq_error_iff, Effect.register_eq_ok_iff,
            Effect.register_ne_error, Effect.push_eq_error_iff, pure_ne_error, and_false,
            exists_false, or_false, false_or] at failed
          obtain ⟨_, _, ⟨rfl, rfl⟩, refused, rfl⟩ := failed
          exact ⟨.push refused, rfl⟩
  | pop target =>
      cases target with
      | none => exact absurd failed pure_ne_error
      | some target =>
          simp only [execute, bind_eq_error_iff, Effect.pop_eq_error_iff, Effect.write_ne_error,
            pure_ne_error, and_false, exists_false, or_false] at failed
          obtain ⟨refused, rfl⟩ := failed
          exact ⟨.pop refused, rfl⟩
  | load target name =>
      simp only [execute, bind_eq_error_iff, Effect.variableValue_eq_error_iff,
        Effect.write_ne_error, pure_ne_error, and_false, exists_false, or_false] at failed
      obtain ⟨missing, rfl, rfl⟩ := failed
      exact ⟨.load missing, rfl⟩
  | store name value =>
      simp only [execute, bind_eq_error_iff, Effect.evaluate_eq_ok_iff, Effect.evaluate_ne_error,
        Effect.remember_eq_error_iff, pure_ne_error, and_false, exists_false, or_false, false_or]
        at failed
      obtain ⟨_, _, ⟨rfl, rfl⟩, refused, rfl⟩ := failed
      exact ⟨.store refused, rfl⟩
  | alloc name =>
      simp only [execute, bind_eq_error_iff, Effect.remember_eq_error_iff, pure_ne_error,
        and_false, exists_false, or_false] at failed
      obtain ⟨refused, rfl⟩ := failed
      exact ⟨.alloc refused, rfl⟩
  | binary operation left right =>
      by_cases slots : left = some .r0 ∧ right = some .r1
      · obtain ⟨rfl, rfl⟩ := slots
        simp only [execute, bind_eq_error_iff, Effect.register_eq_ok_iff, Effect.register_ne_error,
          Effect.compute_eq_error_iff, Effect.write_ne_error, pure_ne_error, and_false,
          exists_false, or_false, false_or] at failed
        obtain ⟨_, _, ⟨rfl, rfl⟩, _, _, ⟨rfl, rfl⟩, undefined, rfl, rfl⟩ := failed
        exact ⟨.binary undefined, rfl⟩
      · rw [execute_binary_of_other labels operation slots] at failed
        exact absurd failed pure_ne_error
  | subLiteral target value =>
      by_cases slot : target = some .r0
      · subst slot
        simp [execute, bind_eq_error_iff, -bind_pure_comp] at failed
      · rw [execute_subLiteral_of_other labels value slot] at failed
        exact absurd failed pure_ne_error
  | jump condition label =>
      simp only [execute, bind_eq_error_iff, Effect.register_eq_ok_iff, Effect.register_ne_error,
        Effect.branch_eq_error_iff, false_or] at failed
      obtain ⟨_, _, ⟨rfl, rfl⟩, taken, missing, rfl, rfl⟩ := failed
      exact ⟨.jump taken missing, rfl⟩
  | read target sensor =>
      simp only [execute, bind_eq_error_iff, Effect.sense_eq_error_iff, Effect.write_ne_error,
        pure_ne_error, and_false, exists_false, or_false] at failed
      obtain ⟨missing, rfl, rfl⟩ := failed
      exact ⟨.read missing, rfl⟩
  | unknown opcode =>
      obtain ⟨rfl, rfl⟩ := throw_eq_error_iff.1 failed
      exact ⟨.unknown, rfl⟩
  | compare | set | and | or | not | emit | wait | halt =>
      simp [execute, bind_eq_error_iff, -bind_pure_comp] at failed

theorem Refuses.execute_eq {fault : Fault} (rule : Refuses labels machine instruction fault) :
    execute labels instruction machine = .error fault machine := by
  cases rule <;> simp_all [execute, bind_eq_error_iff, Registers.get, and_assoc, -bind_pure_comp]

/-- An instruction faults exactly as the rules say, and leaves the machine as it was. -/
theorem execute_eq_error_iff {fault : Fault} :
    execute labels instruction machine = .error fault after ↔
      Refuses labels machine instruction fault ∧ after = machine := by
  refine ⟨Refuses.of_execute, ?_⟩
  intro given
  rcases given with ⟨rule, rfl⟩
  exact rule.execute_eq

/-- No instruction faults with the step limit, which is the business of the run loop. -/
theorem Refuses.ne_stepLimit {fault : Fault} (rule : Refuses labels machine instruction fault)
    (most : Nat) : fault ≠ .stepLimit most := by
  cases rule with
  | pushLiteral refused | pushVariable _ refused | push refused =>
      obtain ⟨-, rfl⟩ := Stack.push_eq_error_iff.1 refused
      simp
  | pop refused =>
      obtain ⟨-, rfl⟩ := Stack.pop_eq_error_iff.1 refused
      simp
  | store refused | alloc refused =>
      obtain ⟨-, rfl⟩ := Memory.update_eq_error_iff.1 refused
      simp
  | _ => simp

/-! ## What instructions have in common -/

namespace Executes

variable {event : Event α} (rule : Executes labels machine instruction event after)

include rule

theorem event_ne_ended : event ≠ .ended := by
  cases rule <;> simp

theorem counter_eq : after.counter = machine.counter := by
  cases rule <;> rfl

theorem halted_eq : after.halted = machine.halted := by
  cases rule <;> rfl

theorem sensors_eq : after.sensors = machine.sensors := by
  cases rule <;> rfl

/-- The stack is left alone, pushed to or popped from. -/
theorem stack_cases :
    after.stack = machine.stack ∨
      (∃ value, machine.stack.push value = .ok after.stack) ∨
        ∃ value, machine.stack.pop = .ok (value, after.stack) := by
  cases rule with
  | pushLiteral pushed | pushVariable _ pushed | push pushed => exact .inr (.inl ⟨_, pushed⟩)
  | pop popped => exact .inr (.inr ⟨_, popped⟩)
  | _ => exact .inl rfl

/-- At most one cell of the memory is updated. -/
theorem memory_cases :
    after.memory = machine.memory ∨
      ∃ name value, machine.memory.update name value = .ok after.memory := by
  cases rule with
  | store stored => exact .inr ⟨_, _, stored⟩
  | alloc allocated => exact .inr ⟨_, _, allocated⟩
  | _ => exact .inl rfl

end Executes

/-- A jump that is taken goes where its label points. -/
theorem Executes.exists_label {target : Nat}
    (rule : Executes labels machine instruction (.jumped target) after) :
    ∃ label, labels.get? label = some target := by
  cases rule with
  | jump _ found => exact ⟨_, found⟩

/-- Only one instruction stops the program. -/
theorem Executes.eq_halt (rule : Executes labels machine instruction .halted after) :
    instruction = .halt := by
  cases rule
  rfl

/-! ## Steps -/

variable {assembly : Assembly}

/-- A step succeeds past the program, where it does nothing, and where the rules carry out the
instruction under the program counter. -/
theorem step_eq_ok_iff {event : Event α} :
    step assembly machine = .ok event after ↔
      (assembly.fetch? machine.counter = none ∧ event = .ended ∧ after = machine) ∨
        ∃ code between, assembly.fetch? machine.counter = some code ∧
          Executes assembly.labels machine code.instruction event between ∧
            after = event.settle between := by
  unfold step
  cases fetched : assembly.fetch? machine.counter with
  | none => simp [eq_comm]
  | some code =>
      simp only [reduceCtorEq, false_and, false_or, Option.some.injEq, exists_and_left,
        exists_eq_left', ← execute_eq_ok_iff]
      cases execute assembly.labels code.instruction machine with
      | error fault between => simp
      | ok result between =>
          simp only [EStateM.Result.ok.injEq]
          refine ⟨?_, ?_⟩
          · intro given
            rcases given with ⟨rfl, rfl⟩
            exact ⟨between, ⟨rfl, rfl⟩, rfl⟩
          · intro given
            rcases given with ⟨_, ⟨rfl, rfl⟩, rfl⟩
            exact ⟨rfl, rfl⟩

/-- A step faults where the rules refuse the instruction under the program counter. The machine is
left as it was. -/
theorem step_eq_error_iff {fault : Fault} :
    step assembly machine = .error fault after ↔
      ∃ code, assembly.fetch? machine.counter = some code ∧
        Refuses assembly.labels machine code.instruction fault ∧ after = machine := by
  unfold step
  cases fetched : assembly.fetch? machine.counter with
  | none => simp
  | some code =>
      simp only [Option.some.injEq, exists_eq_left', ← execute_eq_error_iff]
      cases execute assembly.labels code.instruction machine <;> simp

end Rules

end WashController
