import WashController.Proofs.Balance
import WashController.Proofs.Exhaustion

/-!
# Causes of faults

An instruction faults because something is missing: the variable that it reads, room for what it
pushes, a value to pop, room for a new cell, a divisor, the label it goes to, a sensor of the name
it gives, or its own meaning. `Lacks` has one case for each, put in terms of the machine and of
nothing that an instruction does, and `refuses_iff_lacks` says that these are the faults that there
are. The cases exclude each other: a variable that is undefined is missed before room for its value
is asked for. An instruction whose register slot is empty asks for less than others do. It neither
pushes, pops nor divides, but it still looks up its variable or its sensor.
-/

namespace WashController

/-! ## Conditions on the machine -/

/-- The variable whose value an instruction uses. -/
def Instruction.reads? : Instruction → Option String
  | .pushVariable name => some name
  | .load _ name => some name
  | _ => none

/-- When a jump is taken, by the number in R0. -/
def Condition.Met (value : Word) : Condition → Prop
  | .always => True
  | .zero => value = 0
  | .lessOrEqual => value ≤ 0

instance (value : Word) : DecidablePred (Condition.Met value)
  | .always => inferInstanceAs (Decidable True)
  | .zero => inferInstanceAs (Decidable (value = 0))
  | .lessOrEqual => inferInstanceAs (Decidable (value ≤ 0))

theorem Word.sign_eq (value : Word) :
    Arithmetic.sign value = compare value.toInt (0 : Word).toInt :=
  rfl

theorem Word.sign_eq_eq_iff {value : Word} : Arithmetic.sign value = .eq ↔ value = 0 := by
  rw [sign_eq, Std.LawfulEqCmp.compare_eq_iff_eq]
  exact Int32.toInt_inj

theorem Condition.holds_sign_iff {condition : Condition} {value : Word} :
    condition.holds (Arithmetic.sign value) = true ↔ condition.Met value := by
  cases condition with
  | always => simp [holds, Met]
  | zero => simp [holds, Met, Word.sign_eq_eq_iff]
  | lessOrEqual =>
      simp only [holds, Met, Word.sign_eq, Int.isLE_compare, Int32.le_iff_toInt_le]

/-- Only a division by zero has no result. -/
theorem BinaryOp.result?_eq_none_iff {operation : BinaryOp} {left right : Word} :
    operation.result? left right = none ↔ operation = .div ∧ right = 0 := by
  cases operation with
  | div => simp [result?, Arithmetic.truth, Word.sign_eq_eq_iff]
  | _ => simp [result?]

theorem Memory.admits_eq_false_iff {α : Type} {memory : Memory α} {name : String} :
    memory.admits name = false ↔ memory.get? name = none ∧ memory.capacity ≤ memory.size := by
  rw [← Bool.not_eq_true, admits_iff, not_or, Nat.not_lt, Option.not_isSome_iff_eq_none]

/-! ## What is missing -/

/-- What an instruction lacks on a machine, and the fault that it is. -/
inductive Lacks (labels : LabelTable) (machine : Machine Word) : Instruction → Fault → Prop
  /-- A variable that is read. -/
  | read {instruction name} :
    instruction.reads? = some name →
    machine.memory.get? name = none →
    Lacks labels machine instruction (.undefinedVariable name)
  /-- Room on the stack, once there is a value to push. -/
  | room {instruction value} :
    instruction.pushed? machine = some value →
    machine.stack.capacity ≤ machine.stack.depth →
    Lacks labels machine instruction (.stackOverflow machine.stack.capacity)
  /-- A value on the stack. -/
  | top {target} :
    machine.stack.values = [] →
    Lacks labels machine (.pop (some target)) .stackUnderflow
  /-- Room in the memory, for a cell that is not there yet. -/
  | cell {instruction name} :
    instruction.cell? = some name →
    machine.memory.get? name = none →
    machine.memory.capacity ≤ machine.memory.size →
    Lacks labels machine instruction (.memoryExhausted machine.memory.capacity)
  /-- A divisor other than zero. -/
  | divisor :
    machine.registers.r1 = 0 →
    Lacks labels machine (.binary .div (some .r0) (some .r1)) .divisionByZero
  /-- The label of a jump that is taken. -/
  | label {condition label} :
    condition.Met machine.registers.r0 →
    labels.get? label = none →
    Lacks labels machine (.jump condition label) (.undefinedLabel label)
  /-- A sensor that is read. -/
  | sensor {target sensor} :
    machine.sensors.read? sensor = none →
    Lacks labels machine (.read target sensor) (.undefinedSensor sensor)
  /-- A meaning. -/
  | meaning {opcode} : Lacks labels machine (.unknown opcode) (.unknownOpcode opcode)

section Lacks

variable {labels : LabelTable} {machine : Machine Word} {instruction : Instruction} {fault : Fault}

theorem Refuses.lacks (rule : Refuses labels machine instruction fault) :
    Lacks labels machine instruction fault := by
  cases rule with
  | pushLiteral refused | push refused =>
      obtain ⟨full, rfl⟩ := Stack.push_eq_error_iff.1 refused
      exact .room rfl full
  | pushVariable found refused =>
      obtain ⟨full, rfl⟩ := Stack.push_eq_error_iff.1 refused
      exact .room found full
  | pushUndefined missing | load missing => exact .read rfl missing
  | pop refused =>
      obtain ⟨empty, rfl⟩ := Stack.pop_eq_error_iff.1 refused
      exact .top empty
  | store refused | alloc refused =>
      obtain ⟨unadmitted, rfl⟩ := Memory.update_eq_error_iff.1 refused
      obtain ⟨missing, full⟩ := Memory.admits_eq_false_iff.1 unadmitted
      exact .cell rfl missing full
  | binary undefined =>
      obtain ⟨rfl, zero⟩ := BinaryOp.result?_eq_none_iff.1 undefined
      exact .divisor zero
  | jump taken missing => exact .label (Condition.holds_sign_iff.1 taken) missing
  | read missing => exact .sensor missing
  | unknown => exact .meaning

theorem Lacks.refuses (lacks : Lacks labels machine instruction fault) :
    Refuses labels machine instruction fault := by
  cases lacks with
  | read reads missing =>
      cases instruction with
      | pushVariable =>
          cases reads
          exact .pushUndefined missing
      | load =>
          cases reads
          exact .load missing
      | _ => cases reads
  | room pushed full =>
      have refused (value : Word) :
          machine.stack.push value = .error (.stackOverflow machine.stack.capacity) :=
        Stack.push_eq_error_iff.2 ⟨full, rfl⟩
      cases instruction with
      | pushLiteral => exact .pushLiteral (refused _)
      | pushVariable => exact .pushVariable pushed (refused _)
      | push source =>
          cases source with
          | none => cases pushed
          | some source => exact .push (refused _)
      | _ => cases pushed
  | top empty => exact .pop (Stack.pop_eq_error_iff.2 ⟨empty, rfl⟩)
  | cell named missing full =>
      have unadmitted := Memory.admits_eq_false_iff.2 ⟨missing, full⟩
      cases instruction with
      | store =>
          cases named
          exact .store (Memory.update_eq_error_iff.2 ⟨unadmitted, rfl⟩)
      | alloc =>
          cases named
          exact .alloc (Memory.update_eq_error_iff.2 ⟨unadmitted, rfl⟩)
      | _ => cases named
  | divisor zero => exact .binary (BinaryOp.result?_eq_none_iff.2 ⟨rfl, zero⟩)
  | label met missing => exact .jump (Condition.holds_sign_iff.2 met) missing
  | sensor missing => exact .read missing
  | meaning => exact .unknown

/-- An instruction is refused just for what it lacks. -/
theorem refuses_iff_lacks :
    Refuses labels machine instruction fault ↔ Lacks labels machine instruction fault :=
  ⟨Refuses.lacks, Lacks.refuses⟩

/-- No instruction lacks two things at once, as it faults for one only. -/
theorem Lacks.unique {other : Fault} (lacks : Lacks labels machine instruction fault)
    (again : Lacks labels machine instruction other) : other = fault := by
  have faulted := lacks.refuses.execute_eq
  rw [again.refuses.execute_eq] at faulted
  cases faulted
  rfl

end Lacks

/-! ## Faults of steps -/

section Step

variable {assembly : Assembly} {machine after : Machine Word} {fault : Fault}

/-- A step faults just for what the instruction under the program counter lacks. -/
theorem step_eq_error_iff_lacks :
    step assembly machine = .error fault after ↔
      after = machine ∧ ∃ code, assembly.fetch? machine.counter = some code ∧
        Lacks assembly.labels machine code.instruction fault := by
  simp only [step_eq_error_iff, refuses_iff_lacks]
  refine ⟨?_, ?_⟩
  · rintro ⟨code, fetched, lacks, unchanged⟩
    exact ⟨unchanged, code, fetched, lacks⟩
  · rintro ⟨unchanged, code, fetched, lacks⟩
    exact ⟨code, fetched, lacks, unchanged⟩

/-- A step succeeds just where nothing is lacking. -/
theorem exists_step_eq_ok_iff {code : CodeLine}
    (fetched : assembly.fetch? machine.counter = some code) :
    (∃ event after, step assembly machine = .ok event after) ↔
      ∀ fault, ¬ Lacks assembly.labels machine code.instruction fault := by
  cases stepped : step assembly machine with
  | ok event after =>
      refine ⟨fun _ fault lacks => ?_, fun _ => ⟨event, after, rfl⟩⟩
      have faulted := step_eq_error_iff_lacks.2 ⟨rfl, code, fetched, lacks⟩
      cases stepped.symm.trans faulted
  | error fault after =>
      obtain ⟨-, _, here, lacks⟩ := step_eq_error_iff_lacks.1 stepped
      cases fetched.symm.trans here
      refine ⟨?_, fun sufficient => absurd lacks (sufficient fault)⟩
      rintro ⟨event, after, succeeded⟩
      cases succeeded

end Step

/-- Faults are exact. A step faults just if the instruction under the program counter lacks
something, and the fault says what it lacks: a variable that it reads; room on the stack for what it
pushes, once that is there; a value to pop into a register; room in the memory for a cell that is
not there; a divisor, where R0 is divided by R1; the label of a jump that is taken; a sensor; or a
meaning. It lacks no two of these at once. So every other instruction, and every other state of the
machine, has a step that succeeds; and the step limit is no fault of any step. -/
theorem faults_are_exact (assembly : Assembly) (machine : Machine Word) :
    (∀ fault after, step assembly machine = .error fault after ↔
      after = machine ∧ ∃ code, assembly.fetch? machine.counter = some code ∧
        Lacks assembly.labels machine code.instruction fault) ∧
    (∀ code, assembly.fetch? machine.counter = some code →
      (∀ fault other, Lacks assembly.labels machine code.instruction fault →
        Lacks assembly.labels machine code.instruction other → other = fault) ∧
      ((∃ event after, step assembly machine = .ok event after) ↔
        ∀ fault, ¬ Lacks assembly.labels machine code.instruction fault)) ∧
    ∀ most after, step assembly machine ≠ .error (.stepLimit most) after := by
  refine ⟨fun fault after => step_eq_error_iff_lacks,
    fun code fetched => ⟨fun fault other lacks again => lacks.unique again,
      exists_step_eq_ok_iff fetched⟩, ?_⟩
  intro most after faulted
  obtain ⟨code, -, rule, -⟩ := step_eq_error_iff.1 faulted
  exact rule.ne_stepLimit most rfl

/-- A push of a variable that is not there, on a full stack: it is the variable that is missed. -/
theorem faults_are_exact_full_stack :
    ∃ (assembly : Assembly) (machine : Machine Word) (code : CodeLine),
      assembly.fetch? machine.counter = some code ∧
      machine.stack.capacity ≤ machine.stack.depth ∧
      step assembly machine = .error (.undefinedVariable "x") machine ∧
      ¬ Lacks assembly.labels machine code.instruction (.stackOverflow 0) ∧
      ¬ ∃ event after, step assembly machine = .ok event after := by
  let assembly : Assembly := ⟨"push", #[⟨.pushVariable "x", 1⟩], .empty⟩
  let machine : Machine Word := .initial { maxStack := 0 }
  have lacks : Lacks assembly.labels machine (.pushVariable "x") (.undefinedVariable "x") :=
    .read rfl rfl
  obtain ⟨faults, causes, -⟩ := faults_are_exact assembly machine
  obtain ⟨single, succeeds⟩ := causes ⟨.pushVariable "x", 1⟩ rfl
  refine ⟨assembly, machine, _, rfl, Nat.le_refl 0, ?_, fun full => ?_, fun succeeded => ?_⟩
  · exact (faults _ _).2 ⟨rfl, _, rfl, lacks⟩
  · cases single _ _ lacks full
  · exact succeeds.1 succeeded _ lacks

end WashController
