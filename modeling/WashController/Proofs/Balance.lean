import WashController.Proofs.Bounds

/-!
# Pushes and pops

The stack along a path. Each instruction leaves the stack alone, puts one value on top or takes one
off (`Balances`), and which of these it does can be told from the instruction, since one that names
no register neither pushes nor pops (`Executes.balances`). So the depth changes by the pushes and
the pops on the way (`Path.depth_add_pops`), and values that the path never comes down to stay where
they are (`Path.bottom_eq`). A value that is pushed is therefore still there, and on top, when the
path has come back to it, and what a pop finds there (`Path.pop_of_return`).
-/

namespace WashController

variable {α : Type}

/-! ## What instructions do to the stack -/

namespace Stack

variable {stack other : Stack α}

/-- The lowest so many values, from the bottom up. -/
def bottom (stack : Stack α) (count : Nat) : List α :=
  stack.values.reverse.take count

/-- All values of a stack are the lowest ones. -/
theorem bottom_depth (stack : Stack α) : stack.bottom stack.depth = stack.values.reverse := by
  rw [bottom, depth, ← List.length_reverse, List.take_length]

/-- One more value on top makes no difference to those below. -/
theorem bottom_of_push {value : α} {count : Nat} (pushed : other.values = value :: stack.values)
    (le : count ≤ stack.depth) : other.bottom count = stack.bottom count := by
  have within : count ≤ stack.values.reverse.length := by
    rwa [List.length_reverse]
  rw [bottom, bottom, pushed, List.reverse_cons, List.take_append_of_le_length within]

end Stack

/-- How the values of a stack, from the top down, change with an instruction, given whether it
pushes and whether it pops. -/
inductive Balances : (pushes pops : Bool) → List α → List α → Prop
  | pushed {value values} : Balances true false values (value :: values)
  | popped {value values} : Balances false true (value :: values) values
  | kept {values} : Balances false false values values

section Balances

variable {pushes pops : Bool}

theorem Balances.length_add {values others : List α}
    (balances : Balances pushes pops values others) :
    others.length + (if pops then 1 else 0) = values.length + if pushes then 1 else 0 := by
  cases balances <;> rfl

/-- Values that are below the top before and after stay where they are. -/
theorem Balances.bottom_eq {stack other : Stack α} {count : Nat}
    (balances : Balances pushes pops stack.values other.values) (le : count ≤ stack.depth)
    (le_other : count ≤ other.depth) : other.bottom count = stack.bottom count := by
  generalize before : stack.values = values, after : other.values = others at balances
  cases balances with
  | pushed => exact Stack.bottom_of_push (before ▸ after) le
  | popped => exact (Stack.bottom_of_push (after ▸ before) le_other).symm
  | kept => rw [Stack.bottom, Stack.bottom, before, after]

end Balances

namespace Instruction

/-- Whether an instruction puts a value on the stack. -/
def pushes : Instruction → Bool
  | .pushLiteral _ => true
  | .pushVariable _ => true
  | .push (some _) => true
  | _ => false

/-- Whether an instruction takes a value off the stack. -/
def pops : Instruction → Bool
  | .pop (some _) => true
  | _ => false

/-- What an instruction puts on the stack, as it finds the machine. -/
def pushed? [Arithmetic α] (machine : Machine α) : Instruction → Option α
  | .pushLiteral value => some (Arithmetic.ofWord value)
  | .pushVariable name => machine.memory.get? name
  | .push (some source) => some (machine.registers.get source)
  | _ => none

end Instruction

namespace Moment

/-- Whether a value is put on the stack at a moment. -/
def pushes (moment : Moment α) : Bool :=
  moment.code.instruction.pushes

/-- Whether a value is taken off the stack at a moment. -/
def pops (moment : Moment α) : Bool :=
  moment.code.instruction.pops

/-- What is put on the stack at a moment, if anything is. -/
def pushed? [Arithmetic α] (moment : Moment α) : Option α :=
  moment.code.instruction.pushed? moment.machine

end Moment

section Step

variable [Arithmetic α] {labels : LabelTable} {instruction : Instruction} {event : Event α}
  {assembly : Assembly} {machine after : Machine α} {code : CodeLine}

theorem Executes.balances (rule : Executes labels machine instruction event after) :
    Balances instruction.pushes instruction.pops machine.stack.values after.stack.values := by
  cases rule with
  | pushLiteral pushed | pushVariable _ pushed | push pushed =>
      rw [(Stack.push_eq_ok_iff.1 pushed).2]
      exact .pushed
  | pop popped =>
      rw [(Stack.pop_eq_ok_iff.1 popped).1]
      exact .popped
  | _ => exact .kept

/-- The value that an instruction pushes is on top afterwards. -/
theorem Executes.values_of_pushed? (rule : Executes labels machine instruction event after)
    {value : α} (pushed : instruction.pushed? machine = some value) :
    after.stack.values = value :: machine.stack.values := by
  cases rule with
  | pushLiteral there | push there =>
      cases pushed
      rw [(Stack.push_eq_ok_iff.1 there).2]
  | pushVariable found there =>
      cases found.symm.trans pushed
      rw [(Stack.push_eq_ok_iff.1 there).2]
  | _ => cases pushed

theorem step_balances (fetched : assembly.fetch? machine.counter = some code)
    (stepped : step assembly machine = .ok event after) :
    Balances code.instruction.pushes code.instruction.pops machine.stack.values
      after.stack.values := by
  rcases step_eq_ok_iff.1 stepped with ⟨past, -, -⟩ | ⟨_, between, here, rule, rfl⟩
  · cases fetched.symm.trans past
  · cases fetched.symm.trans here
    rw [Event.settle_stack]
    exact rule.balances

/-- A step that stops the program leaves the stack alone. -/
theorem stack_eq_of_step (stepped : step assembly machine = .ok event after)
    (stops : event.goesOn = false) : after.stack = machine.stack := by
  rcases step_eq_ok_iff.1 stepped with ⟨-, -, rfl⟩ | ⟨code, between, -, rule, rfl⟩
  · rfl
  · generalize code.instruction = instruction at rule
    cases rule with
    | halt => rfl
    | _ => cases stops

/-- A pop into a register writes the value on top to it. -/
theorem step_of_pop {target : Register} {line : Nat} {value : α} {stack : Stack α}
    (fetched : assembly.fetch? machine.counter = some ⟨.pop (some target), line⟩)
    (popped : machine.stack.pop = .ok (value, stack)) :
    step assembly machine = .ok .advanced
      { machine with
        registers := machine.registers.set target value
        stack := stack
        counter := machine.counter + 1 } :=
  step_eq_ok_iff.2 (.inr ⟨_, _, fetched, .pop popped, rfl⟩)

end Step

/-! ## Along a path -/

section Path

variable [Arithmetic α] {assembly : Assembly} {first last : Machine α} {moment : Moment α}
  {moments : List (Moment α)}

/-- The depth of the stack grows with each push and shrinks with each pop. -/
theorem Path.depth_add_pops (path : Path assembly first moments last) :
    last.stack.depth + moments.countP Moment.pops =
      first.stack.depth + moments.countP Moment.pushes := by
  induction path with
  | refl => rfl
  | @head machine next _ code event moments fetched stepped _ _ ih =>
      have here : next.stack.depth +
            (if Moment.pops ⟨machine, code, event⟩ then 1 else 0) =
          machine.stack.depth + if Moment.pushes ⟨machine, code, event⟩ then 1 else 0 :=
        (step_balances fetched stepped).length_add
      rw [List.countP_cons, List.countP_cons]
      omega

/-- What lies below the lowest depth of a path stays as it is. -/
theorem Path.bottom_eq {depth : Nat} (path : Path assembly first moments last)
    (above : ∀ moment ∈ moments, depth ≤ moment.machine.stack.depth)
    (reaches : depth ≤ last.stack.depth) :
    last.stack.bottom depth = first.stack.bottom depth := by
  induction path with
  | refl => rfl
  | @head machine next _ code event moments fetched stepped _ rest ih =>
      obtain ⟨here, above⟩ := List.forall_mem_cons.1 above
      have there : depth ≤ next.stack.depth := by
        cases rest with
        | refl => exact reaches
        | head => exact above _ List.mem_cons_self
      rw [ih above reaches]
      exact (step_balances fetched stepped).bottom_eq here there

/-- Back at the depth just above a value that was pushed, the value is on top again and below it is
the stack from before the push, if the path did not come below the value. -/
theorem Path.pop_of_return {value : α}
    (path : Path assembly first (moment :: moments) last) (pushed : moment.pushed? = some value)
    (above : ∀ later ∈ moments, first.stack.depth < later.machine.stack.depth)
    (returned : last.stack.depth = first.stack.depth + 1) :
    last.stack.pop = .ok (value, first.stack) := by
  refine Stack.pop_eq_ok_iff.2 ⟨?_, path.reached.keeps.stackCapacity.symm⟩
  cases path with
  | @head _ next _ code event _ fetched stepped going rest =>
      have there : next.stack.values = value :: first.stack.values := by
        rcases step_eq_ok_iff.1 stepped with ⟨past, -, -⟩ | ⟨_, between, here, rule, rfl⟩
        · cases fetched.symm.trans past
        · cases fetched.symm.trans here
          rw [Event.settle_stack]
          exact rule.values_of_pushed? pushed
      have depth : next.stack.depth = last.stack.depth :=
        (congrArg List.length there).trans returned.symm
      have kept : last.stack.bottom last.stack.depth = next.stack.bottom next.stack.depth := by
        rw [depth]
        exact rest.bottom_eq (fun later member => returned ▸ above later member) (Nat.le_refl _)
      rw [Stack.bottom_depth, Stack.bottom_depth] at kept
      rw [List.reverse_inj.1 kept, there]

end Path

/-- The stack is kept in order over a whole run. Take any two places of a path, that is the machines
after so many of its steps. From the one to the other the depth of the stack grows by the number of
pushes carried out between them and shrinks by the number of pops; and if at every place between
them the stack holds at least so many values, the lowest so many are the same at both. So let a
value be pushed, and let the stack be just as deep again at a later place, without having been less
deep in between: then a pop into a register, at that place, succeeds and writes this value, and
leaves the stack as it was before the push. Last of all, a step that stops the program leaves the
stack alone. -/
theorem stack_is_kept_in_order {assembly : Assembly} {first last : Machine Word}
    {moments : List (Moment Word)} (path : Path assembly first moments last) :
    (∀ count, Path assembly first (moments.take count)
      (Moment.machineAfter moments last count)) ∧
    (∀ start stop, start ≤ stop →
      (Moment.machineAfter moments last stop).stack.depth +
          ((moments.take stop).drop start).countP Moment.pops =
        (Moment.machineAfter moments last start).stack.depth +
          ((moments.take stop).drop start).countP Moment.pushes ∧
      ∀ depth, (∀ place, start ≤ place → place ≤ stop →
          depth ≤ (Moment.machineAfter moments last place).stack.depth) →
        (Moment.machineAfter moments last stop).stack.bottom depth =
          (Moment.machineAfter moments last start).stack.bottom depth) ∧
    (∀ start stop moment value target line,
      moments[start]? = some moment → moment.pushed? = some value → start < stop →
      (∀ place, start < place → place ≤ stop →
        (Moment.machineAfter moments last start).stack.depth <
          (Moment.machineAfter moments last place).stack.depth) →
      (Moment.machineAfter moments last stop).stack.depth =
        (Moment.machineAfter moments last start).stack.depth + 1 →
      assembly.fetch? (Moment.machineAfter moments last stop).counter =
        some ⟨.pop (some target), line⟩ →
      step assembly (Moment.machineAfter moments last stop) = .ok .advanced
        { Moment.machineAfter moments last stop with
          registers := (Moment.machineAfter moments last stop).registers.set target value
          stack := (Moment.machineAfter moments last start).stack
          counter := (Moment.machineAfter moments last stop).counter + 1 }) ∧
    ∀ event next, step assembly last = .ok event next → event.goesOn = false →
      next.stack = last.stack := by
  refine ⟨fun count => (path.take_drop count).1, fun start stop le => ⟨?_, ?_⟩, ?_, ?_⟩
  · exact (path.between le).depth_add_pops
  · intro depth above
    refine (path.between le).bottom_eq (fun moment member => ?_) (above stop le (Nat.le_refl stop))
    obtain ⟨place, after, before, same⟩ := Moment.exists_machineAfter_eq member last
    exact same ▸ above place after (Nat.le_of_lt before)
  · intro start stop moment value target line here pushed lt above returned fetched
    have segment : (moments.take stop).drop start =
        moment :: (moments.take stop).drop (start + 1) := by
      have found : (moments.take stop)[start]? = some moment := by
        rw [List.getElem?_take_of_lt lt, here]
      obtain ⟨within, found⟩ := List.getElem?_eq_some_iff.1 found
      rw [List.drop_eq_getElem_cons within, found]
    have onward := path.between (Nat.le_of_lt lt)
    rw [segment] at onward
    refine step_of_pop fetched (onward.pop_of_return pushed (fun later member => ?_) returned)
    obtain ⟨place, after, before, same⟩ := Moment.exists_machineAfter_eq member last
    exact same ▸ above place after (Nat.le_of_lt before)
  · exact fun event next stepped stops => stack_eq_of_step stepped stops

/-- A value that is pushed below another one, and is popped into the other register after that. -/
theorem stack_is_kept_in_order_nested :
    ∃ (assembly : Assembly) (last next : Machine Word) (moments : List (Moment Word)),
      Path assembly (.initial {}) moments last ∧
      moments.map (·.code.line) = [1, 2, 3, 4] ∧
      last.stack.depth + moments.countP Moment.pops = 0 + moments.countP Moment.pushes ∧
      step assembly last = .ok .advanced next ∧
      next.registers.r0 = 5 ∧ next.stack = .empty 256 := by
  let assembly : Assembly := ⟨"nested", #[⟨.pushLiteral 5, 1⟩, ⟨.pushLiteral 6, 2⟩, ⟨.pop none, 3⟩,
    ⟨.pop (some .r1), 4⟩, ⟨.pop (some .r0), 5⟩], .empty⟩
  obtain ⟨moments, last, path, lines, start, stop, moment, first, pushed, above, returned,
      fetched⟩ :
      ∃ (moments : List (Moment Word)) (last : Machine Word),
        Path assembly (.initial {}) moments last ∧ moments.map (·.code.line) = [1, 2, 3, 4] ∧
        Moment.machineAfter moments last 0 = .initial {} ∧
        Moment.machineAfter moments last 4 = last ∧
        ∃ moment, moments[0]? = some moment ∧ moment.pushed? = some 5 ∧
        (∀ place, 0 < place → place ≤ 4 →
          (Moment.machineAfter moments last 0).stack.depth <
            (Moment.machineAfter moments last place).stack.depth) ∧
        (Moment.machineAfter moments last 4).stack.depth =
          (Moment.machineAfter moments last 0).stack.depth + 1 ∧
        assembly.fetch? (Moment.machineAfter moments last 4).counter =
          some ⟨.pop (some .r0), 5⟩ := by
    refine ⟨_, _, .head rfl rfl rfl (.head rfl rfl rfl (.head rfl rfl rfl (.head rfl rfl rfl
      .refl))), rfl, rfl, rfl, _, rfl, rfl, fun place after before => ?_, rfl, rfl⟩
    obtain rfl | rfl | rfl | rfl : place = 1 ∨ place = 2 ∨ place = 3 ∨ place = 4 := by omega
    all_goals decide
  obtain ⟨-, places, returns, -⟩ := stack_is_kept_in_order path
  have length : moments.length = 4 := by simpa using congrArg List.length lines
  have depth := (places 0 4 (Nat.zero_le 4)).1
  rw [stop, start, List.drop_zero, List.take_of_length_le (Nat.le_of_eq length)] at depth
  have popped := returns 0 4 moment 5 .r0 5 first pushed (by decide) above returned fetched
  rw [stop, start] at popped
  exact ⟨assembly, last, _, moments, path, lines, depth, popped, rfl, rfl⟩

end WashController
