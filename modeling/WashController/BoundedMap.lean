import Std.Data.ExtTreeMap.Lemmas

/-!
# Bounded maps

Maps of names to values in which there is room for so many names only. A name that is there already
can always be entered again; a new one is refused once the map is full. Labels and memory cells are
both kept in this way. What such a map admits, and what it holds once a name is entered, is told
here for values of any kind.
-/

namespace WashController.BoundedMap

variable {β : Type} {capacity : Nat} {entries after : Std.ExtTreeMap String β} {name : String}
  {value : Option β → β}

/-- Whether a name is there already, or there is room for one more. -/
def admits (capacity : Nat) (entries : Std.ExtTreeMap String β) (name : String) : Bool :=
  entries.contains name || entries.size < capacity

/-- The map with a value under a name, given what was there before if anything was. A name that is
not admitted is refused. -/
def enter? (capacity : Nat) (entries : Std.ExtTreeMap String β) (name : String)
    (value : Option β → β) : Option (Std.ExtTreeMap String β) :=
  if admits capacity entries name then some (entries.insert name (value entries[name]?)) else none

theorem admits_iff :
    admits capacity entries name = true ↔ entries[name]?.isSome ∨ entries.size < capacity := by
  simp [admits]

theorem enter?_eq_some_iff :
    enter? capacity entries name value = some after ↔
      admits capacity entries name = true ∧
        after = entries.insert name (value entries[name]?) := by
  unfold enter?
  cases admits capacity entries name <;> simp [eq_comm]

/-- A name is refused only if it is not admitted, whatever value it is to have. -/
theorem enter?_eq_none_iff :
    enter? capacity entries name value = none ↔ admits capacity entries name = false := by
  unfold enter?
  cases admits capacity entries name <;> simp

/-- To enter a name changes what is under that name, and nothing else. -/
theorem getElem?_of_enter? (entered : enter? capacity entries name value = some after)
    (other : String) :
    after[other]? = if name = other then some (value entries[name]?) else entries[other]? := by
  obtain ⟨-, rfl⟩ := enter?_eq_some_iff.1 entered
  simp only [Std.ExtTreeMap.getElem?_insert, Std.LawfulEqCmp.compare_eq_iff_eq]

/-- To enter a name adds to the names only if it is new. -/
theorem size_of_enter? (entered : enter? capacity entries name value = some after) :
    after.size = if entries[name]?.isSome then entries.size else entries.size + 1 := by
  obtain ⟨-, rfl⟩ := enter?_eq_some_iff.1 entered
  simp [Std.ExtTreeMap.size_insert]

end WashController.BoundedMap
