import WashController.Arithmetic
import WashController.BoundedMap
import WashController.Fault

/-!
# Memory

Named cells. A cell comes into being when its name is first stored to or allocated, and stays. A
full memory refuses new names only: cells that exist can always be written. What a memory holds
is what `get?` gives for each name (`ext`), and every operation is an `update` of one cell.
-/

namespace WashController

/-- The cells by name, and how many there may be. -/
structure Memory (α : Type) where
  cells : Std.ExtTreeMap String α
  capacity : Nat
  deriving DecidableEq

namespace Memory

variable {α : Type}

/-- The memory without cells. -/
def empty (capacity : Nat) : Memory α :=
  ⟨∅, capacity⟩

/-- The value of a cell, if there is one of this name. -/
def get? (memory : Memory α) (name : String) : Option α :=
  memory.cells[name]?

/-- The number of cells. -/
def size (memory : Memory α) : Nat :=
  memory.cells.size

/-- The cells with their values, ordered by name, code point by code point. -/
def toList (memory : Memory α) : List (String × α) :=
  memory.cells.toList

/-- Whether there is a cell of this name, or room for one. -/
def admits (memory : Memory α) (name : String) : Bool :=
  BoundedMap.admits memory.capacity memory.cells name

/-- Changes the cell of a name, given what it held if there was one. -/
def update (memory : Memory α) (name : String) (value : Option α → α) :
    Except Fault (Memory α) :=
  match BoundedMap.enter? memory.capacity memory.cells name value with
  | some cells => .ok { memory with cells := cells }
  | none => .error (.memoryExhausted memory.capacity)

section Update

variable {memory after : Memory α} {name : String} {value : Option α → α}

theorem admits_iff :
    memory.admits name = true ↔ (memory.get? name).isSome ∨ memory.size < memory.capacity :=
  BoundedMap.admits_iff

theorem enter?_of_update (updated : memory.update name value = .ok after) :
    BoundedMap.enter? memory.capacity memory.cells name value = some after.cells ∧
      after.capacity = memory.capacity := by
  unfold update at updated
  split at updated
  next cells entered =>
    cases updated
    exact ⟨entered, rfl⟩
  next => cases updated

theorem update_eq_ok_iff :
    memory.update name value = .ok after ↔ memory.admits name = true ∧
      after = { memory with cells := memory.cells.insert name (value (memory.get? name)) } := by
  refine ⟨fun updated => ?_, ?_⟩
  · obtain ⟨entered, capacity⟩ := enter?_of_update updated
    obtain ⟨admitted, cells⟩ := BoundedMap.enter?_eq_some_iff.1 entered
    cases after
    cases capacity
    cases cells
    exact ⟨admitted, rfl⟩
  · rintro ⟨admitted, rfl⟩
    rw [update, BoundedMap.enter?_eq_some_iff.2 ⟨admitted, rfl⟩]
    rfl

/-- An update fails only for want of room, whatever value it is to give. -/
theorem update_eq_error_iff {fault : Fault} :
    memory.update name value = .error fault ↔
      memory.admits name = false ∧ fault = .memoryExhausted memory.capacity := by
  have refused : BoundedMap.enter? memory.capacity memory.cells name value = none ↔
      memory.admits name = false := BoundedMap.enter?_eq_none_iff
  rw [← refused, update]
  cases BoundedMap.enter? memory.capacity memory.cells name value <;> simp [eq_comm]

/-- An update changes the cell that it names, and no other. -/
theorem get?_of_update (updated : memory.update name value = .ok after) (other : String) :
    after.get? other =
      if name = other then some (value (memory.get? name)) else memory.get? other :=
  BoundedMap.getElem?_of_enter? (enter?_of_update updated).1 other

theorem capacity_of_update (updated : memory.update name value = .ok after) :
    after.capacity = memory.capacity :=
  (enter?_of_update updated).2

/-- An update adds a cell only if there is none of this name. -/
theorem size_of_update (updated : memory.update name value = .ok after) :
    after.size = if (memory.get? name).isSome then memory.size else memory.size + 1 :=
  BoundedMap.size_of_enter? (enter?_of_update updated).1

end Update

/-- A memory is what it holds under each name, and its capacity. -/
theorem ext {first second : Memory α} (cells : ∀ name, first.get? name = second.get? name)
    (capacity : first.capacity = second.capacity) : first = second := by
  cases first
  cases second
  simp_all only [mk.injEq, and_true]
  exact Std.ExtTreeMap.ext_getElem? cells

theorem mem_toList {memory : Memory α} {name : String} {value : α} :
    (name, value) ∈ memory.toList ↔ memory.get? name = some value :=
  Std.ExtTreeMap.mem_toList_iff_getElem?_eq_some

/-- Each cell is listed once, in the order of the names. -/
theorem toList_ordered (memory : Memory α) :
    memory.toList.Pairwise fun left right => compare left.1 right.1 = .lt :=
  Std.ExtTreeMap.ordered_keys_toList

/-- Gives a cell a value. -/
def store (memory : Memory α) (name : String) (value : α) : Except Fault (Memory α) :=
  memory.update name fun _ => value

variable [Arithmetic α]

/-- Makes sure that there is a cell. A new one holds zero; one that exists keeps its value. -/
def alloc (memory : Memory α) (name : String) : Except Fault (Memory α) :=
  memory.update name fun held => held.getD Arithmetic.zero

/-- Adds to a cell, which is allocated if need be. -/
def add (memory : Memory α) (name : String) (amount : α) : Except Fault (Memory α) :=
  memory.update name fun held => Arithmetic.add (held.getD Arithmetic.zero) amount

end Memory

end WashController
