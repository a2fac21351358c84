import WashController.Fault

/-!
# The stack

A stack with a fixed capacity. A push that does not fit and a pop from an empty stack are faults;
what the two operations do is in `push_eq_ok_iff` and `pop_eq_ok_iff`, and when they fail in
`push_eq_error_iff` and `pop_eq_error_iff`.
-/

namespace WashController

/-- Values from the top down, and how many there may be. -/
structure Stack (α : Type) where
  values : List α
  capacity : Nat
  deriving DecidableEq

namespace Stack

variable {α : Type}

/-- The stack without values. -/
def empty (capacity : Nat) : Stack α :=
  ⟨[], capacity⟩

/-- The number of values. -/
def depth (stack : Stack α) : Nat :=
  stack.values.length

/-- Puts a value on top, if there is room. -/
def push (stack : Stack α) (value : α) : Except Fault (Stack α) :=
  if stack.depth < stack.capacity then
    .ok { stack with values := value :: stack.values }
  else
    .error (.stackOverflow stack.capacity)

/-- The value on top, and the stack below it. -/
def pop (stack : Stack α) : Except Fault (α × Stack α) :=
  match stack.values with
  | value :: values => .ok (value, { stack with values := values })
  | [] => .error .stackUnderflow

theorem push_eq_ok_iff {stack pushed : Stack α} {value : α} :
    stack.push value = .ok pushed ↔
      stack.depth < stack.capacity ∧ pushed = { stack with values := value :: stack.values } := by
  unfold push
  by_cases room : stack.depth < stack.capacity <;> simp [room, eq_comm]

theorem push_eq_error_iff {stack : Stack α} {value : α} {fault : Fault} :
    stack.push value = .error fault ↔
      stack.capacity ≤ stack.depth ∧ fault = .stackOverflow stack.capacity := by
  unfold push
  by_cases room : stack.depth < stack.capacity
  · have within : ¬ stack.capacity ≤ stack.depth := by omega
    simp [room, within]
  · have full : stack.capacity ≤ stack.depth := by omega
    simp [room, full, eq_comm]

theorem pop_eq_ok_iff {stack popped : Stack α} {value : α} :
    stack.pop = .ok (value, popped) ↔
      stack.values = value :: popped.values ∧ popped.capacity = stack.capacity := by
  rcases stack with ⟨_ | ⟨top, values⟩, capacity⟩
  · simp [pop]
  · rcases popped with ⟨rest, bound⟩
    simp [pop, and_assoc, eq_comm]

theorem pop_eq_error_iff {stack : Stack α} {fault : Fault} :
    stack.pop = .error fault ↔ stack.values = [] ∧ fault = .stackUnderflow := by
  rcases stack with ⟨_ | ⟨top, values⟩, capacity⟩ <;> simp [pop, eq_comm]

end Stack

end WashController
