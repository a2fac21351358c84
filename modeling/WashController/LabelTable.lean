import WashController.BoundedMap

/-!
# Label tables

Where each label of a program points. Declaring a name again moves it, so the last declaration of
a name counts; a new name is refused once the table holds as many names as it may. Two tables are
equal as soon as they agree on every name, in whatever order the names were declared.
-/

namespace WashController

/-- The offset of each declared label. -/
structure LabelTable where
  offsets : Std.ExtTreeMap String Nat
  deriving DecidableEq

namespace LabelTable

/-- The table without labels. -/
def empty : LabelTable :=
  ⟨∅⟩

/-- The offset of a label, if it is declared. -/
def get? (table : LabelTable) (name : String) : Option Nat :=
  table.offsets[name]?

/-- The number of labels. -/
def size (table : LabelTable) : Nat :=
  table.offsets.size

theorem ext {table other : LabelTable} (same : ∀ name, table.get? name = other.get? name) :
    table = other := by
  cases table
  cases other
  exact congrArg mk (Std.ExtTreeMap.ext_getElem? fun {name} => same name)

@[simp]
theorem get?_empty (name : String) : empty.get? name = none := by
  simp [empty, get?]

/-- A name that is declared already can always be moved; a new one needs room. -/
def admits (capacity : Nat) (table : LabelTable) (name : String) : Bool :=
  BoundedMap.admits capacity table.offsets name

/-- The table with a label declared at an offset, unless the label is refused. -/
def declare? (capacity : Nat) (table : LabelTable) (name : String) (offset : Nat) :
    Option LabelTable :=
  (BoundedMap.enter? capacity table.offsets name fun _ => offset).map mk

section Declare

variable {capacity offset : Nat} {table after : LabelTable} {name : String}

theorem admits_iff :
    table.admits capacity name = true ↔ (table.get? name).isSome ∨ table.size < capacity :=
  BoundedMap.admits_iff

/-- A label is refused only if the table does not admit its name. -/
theorem declare?_eq_none_iff :
    table.declare? capacity name offset = none ↔ table.admits capacity name = false :=
  Option.map_eq_none_iff.trans BoundedMap.enter?_eq_none_iff

/-- Declaring a label changes where that label points, and nothing else. -/
theorem get?_of_declare? (declared : table.declare? capacity name offset = some after)
    (other : String) :
    after.get? other = if name = other then some offset else table.get? other := by
  obtain ⟨offsets, entered, rfl⟩ := Option.map_eq_some_iff.1 declared
  exact BoundedMap.getElem?_of_enter? entered other

/-- Declaring a label adds to the labels only if the name is new. -/
theorem size_of_declare? (declared : table.declare? capacity name offset = some after) :
    after.size = if (table.get? name).isSome then table.size else table.size + 1 := by
  obtain ⟨offsets, entered, rfl⟩ := Option.map_eq_some_iff.1 declared
  exact BoundedMap.size_of_enter? entered

end Declare

/-- The order of a listing: by offset, and by name, code point by code point, at one offset. -/
def order : String × Nat → String × Nat → Ordering :=
  compareLex (compareOn (·.2)) (compareOn (·.1))

instance : Std.TransCmp order :=
  inferInstanceAs (Std.TransCmp (compareLex _ _))

/-- The labels in the order of a listing. -/
def sorted (table : LabelTable) : List (String × Nat) :=
  table.offsets.toList.mergeSort fun left right => (order left right).isLE

@[simp]
theorem sorted_empty : empty.sorted = [] := by
  have nothing : empty.offsets.toList = [] := rfl
  rw [sorted, nothing, List.mergeSort_nil]

/-- A listing shows each label of the table, and no other. -/
theorem mem_sorted {table : LabelTable} {name : String} {offset : Nat} :
    (name, offset) ∈ table.sorted ↔ table.get? name = some offset := by
  rw [sorted, List.mem_mergeSort]
  exact Std.ExtTreeMap.mem_toList_iff_getElem?_eq_some

/-- Sorting puts labels in order, whatever order they come in. -/
theorem mergeSort_ordered (labels : List (String × Nat)) :
    (labels.mergeSort fun left right => (order left right).isLE).Pairwise fun left right =>
      (order left right).isLE := by
  refine List.pairwise_mergeSort (fun _ _ _ => Std.TransCmp.isLE_trans) (fun left right => ?_) _
  have swapped : order right left = (order left right).swap := Std.OrientedCmp.eq_swap
  rw [swapped]
  cases order left right <;> rfl

theorem sorted_ordered (table : LabelTable) :
    table.sorted.Pairwise fun left right => (order left right).isLE :=
  mergeSort_ordered _

end LabelTable

end WashController
