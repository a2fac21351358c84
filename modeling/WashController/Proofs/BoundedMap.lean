import Mathlib.Data.Finset.Card
import WashController.BoundedMap

/-!
# Names in bounded maps

Which names a bounded map holds. They are a finite set, as large as the map (`BoundedMap.names`).
First come, first served: it is the first names of a sequence that are `admitted`, each counted once
and up to the capacity, and they stay so whatever comes later (`mem_admitted_append_iff`). A map
that the names of a sequence are entered into holds just these (`Enrolls`), and one more name keeps
this, whether or not it is refused (`Enrolls.concat`).
-/

namespace WashController

/-! ## The set of names -/

namespace BoundedMap

variable {β : Type} {entries : Std.ExtTreeMap String β} {name : String}

/-- The names that a map holds. -/
def names (entries : Std.ExtTreeMap String β) : Finset String :=
  entries.keys.toFinset

theorem mem_names : name ∈ names entries ↔ entries[name]?.isSome := by
  rw [names, List.mem_toFinset, Std.ExtTreeMap.mem_keys, Std.ExtTreeMap.isSome_getElem?_iff_mem]

theorem card_names : (names entries).card = entries.size := by
  rw [names, List.toFinset_card_of_nodup Std.ExtTreeMap.nodup_keys, Std.ExtTreeMap.length_keys]

end BoundedMap

/-! ## The names that are admitted -/

/-- The first names of a sequence, each once, up to a capacity. -/
def admitted (capacity : Nat) (names : List String) : List String :=
  names.eraseDups.take capacity

section Admitted

variable {capacity : Nat} {name other : String} {names later : List String}

/-- Later names come after the earlier ones, which are not counted again. -/
theorem admitted_append (capacity : Nat) (names later : List String) :
    admitted capacity (names ++ later) = admitted capacity names ++
      (later.removeAll names).eraseDups.take (capacity - names.eraseDups.length) := by
  rw [admitted, List.eraseDups_append, List.take_append, admitted]

theorem mem_of_mem_admitted (member : name ∈ admitted capacity names) : name ∈ names :=
  List.mem_eraseDups.1 (List.mem_of_mem_take member)

/-- Whether a name is admitted is up to the names before it. -/
theorem mem_admitted_append_iff (seen : name ∈ names) :
    name ∈ admitted capacity (names ++ later) ↔ name ∈ admitted capacity names := by
  rw [admitted_append, List.mem_append, or_iff_left]
  intro fresh
  have kept := List.mem_eraseDups.1 (List.mem_of_mem_take fresh)
  rw [List.removeAll, List.mem_filter] at kept
  simp [seen] at kept

/-- One more name is added if there is room and it is not there yet. -/
theorem admitted_concat (capacity : Nat) (names : List String) (name : String) :
    admitted capacity (names ++ [name]) =
      if name ∈ admitted capacity names ∨ capacity ≤ (admitted capacity names).length then
        admitted capacity names
      else admitted capacity names ++ [name] := by
  have length : (admitted capacity names).length = min capacity names.eraseDups.length :=
    List.length_take
  by_cases seen : name ∈ names
  · have none : [name].removeAll names = [] := by simp [List.removeAll, seen]
    rw [admitted_append, none, List.eraseDups_nil, List.take_nil, List.append_nil, if_pos]
    by_cases room : names.eraseDups.length ≤ capacity
    · left
      rw [admitted, List.take_of_length_le room]
      exact List.mem_eraseDups.2 seen
    · right
      omega
  · have fresh : [name].removeAll names = [name] := by simp [List.removeAll, seen]
    have absent : name ∉ admitted capacity names := mt mem_of_mem_admitted seen
    have single : [name].eraseDups = [name] := rfl
    rw [admitted_append, fresh, single]
    by_cases room : names.eraseDups.length < capacity
    · have full : ¬ capacity ≤ (admitted capacity names).length := by omega
      rw [if_neg (not_or.2 ⟨absent, full⟩), List.take_of_length_le]
      exact Nat.le_sub_of_add_le' room
    · have full : capacity ≤ (admitted capacity names).length := by omega
      have nothing : capacity - names.eraseDups.length = 0 := by omega
      rw [if_pos (.inr full), nothing, List.take_zero, List.append_nil]

/-- A name that comes next is admitted if it is admitted already, or there is room for it. -/
theorem mem_admitted_concat_iff :
    name ∈ admitted capacity (names ++ [name]) ↔
      name ∈ admitted capacity names ∨ (admitted capacity names).length < capacity := by
  rw [admitted_concat]
  split
  next kept =>
    refine ⟨.inl, fun given => ?_⟩
    rcases kept with known | full
    · exact known
    · exact given.resolve_right (Nat.not_lt.2 full)
  next added => simp [Nat.lt_of_not_le (not_or.1 added).2]

/-- Other names make no difference to whether a name is admitted. -/
theorem mem_admitted_concat_of_ne (different : other ≠ name) :
    name ∈ admitted capacity (names ++ [other]) ↔ name ∈ admitted capacity names := by
  rw [admitted_concat]
  split
  next => exact Iff.rfl
  next => rw [List.mem_append, List.mem_singleton, or_iff_left (Ne.symm different)]

end Admitted

/-! ## Maps that admit names -/

/-- Whether a map holds just the names that are admitted of a sequence. -/
structure Enrolls {β : Type} (capacity : Nat) (names : List String)
    (entries : Std.ExtTreeMap String β) : Prop where
  mem_iff : ∀ name, name ∈ entries ↔ name ∈ admitted capacity names
  size_eq : entries.size = (admitted capacity names).length

namespace Enrolls

variable {β : Type} {capacity : Nat} {names : List String} {name : String}
  {entries : Std.ExtTreeMap String β}

theorem empty (capacity : Nat) : Enrolls capacity [] (∅ : Std.ExtTreeMap String β) where
  mem_iff name := by simp [admitted]
  size_eq := by simp [admitted]

theorem admits_iff (enrolls : Enrolls capacity names entries) :
    BoundedMap.admits capacity entries name = true ↔
      name ∈ admitted capacity (names ++ [name]) := by
  rw [BoundedMap.admits_iff, Std.ExtTreeMap.isSome_getElem?_iff_mem, enrolls.mem_iff,
    enrolls.size_eq, mem_admitted_concat_iff]

/-- A name that is admitted is entered, and if it is there already nothing is added. -/
theorem insert (enrolls : Enrolls capacity names entries)
    (accepted : name ∈ admitted capacity (names ++ [name])) (value : β) :
    Enrolls capacity (names ++ [name]) (entries.insert name value) := by
  have known : entries.contains name = true ↔ name ∈ admitted capacity names := by
    rw [Std.ExtTreeMap.contains_iff_mem, enrolls.mem_iff]
  by_cases present : name ∈ admitted capacity names
  · have same : admitted capacity (names ++ [name]) = admitted capacity names := by
      rw [admitted_concat, if_pos (.inl present)]
    refine ⟨fun other => ?_, ?_⟩
    · rw [Std.ExtTreeMap.mem_insert, Std.LawfulEqCmp.compare_eq_iff_eq, enrolls.mem_iff, same,
        or_iff_right_iff_imp]
      rintro rfl
      exact present
    · rw [Std.ExtTreeMap.size_insert, if_pos (known.2 present), same, enrolls.size_eq]
  · have room := (mem_admitted_concat_iff.1 accepted).resolve_left present
    have more : admitted capacity (names ++ [name]) = admitted capacity names ++ [name] := by
      rw [admitted_concat, if_neg (not_or.2 ⟨present, Nat.not_le.2 room⟩)]
    refine ⟨fun other => ?_, ?_⟩
    · rw [Std.ExtTreeMap.mem_insert, Std.LawfulEqCmp.compare_eq_iff_eq, enrolls.mem_iff, more,
        List.mem_append, List.mem_singleton, or_comm, eq_comm]
    · rw [Std.ExtTreeMap.size_insert, if_neg (mt known.1 present), more, List.length_append,
        enrolls.size_eq, List.length_singleton]

/-- A name that is not admitted makes no difference. -/
theorem refuse (enrolls : Enrolls capacity names entries)
    (refused : name ∉ admitted capacity (names ++ [name])) :
    Enrolls capacity (names ++ [name]) entries := by
  rw [mem_admitted_concat_iff, not_or] at refused
  have same : admitted capacity (names ++ [name]) = admitted capacity names := by
    rw [admitted_concat, if_pos (.inr (Nat.not_lt.1 refused.2))]
  exact ⟨by rw [same]; exact enrolls.mem_iff, by rw [same]; exact enrolls.size_eq⟩

/-- One more name, whether or not it is refused. -/
theorem concat (enrolls : Enrolls capacity names entries) (name : String) (value : Option β → β) :
    Enrolls capacity (names ++ [name])
      ((BoundedMap.enter? capacity entries name value).getD entries) := by
  cases entered : BoundedMap.enter? capacity entries name value with
  | none =>
      have refused := BoundedMap.enter?_eq_none_iff.1 entered
      rw [← Bool.not_eq_true, enrolls.admits_iff] at refused
      exact enrolls.refuse refused
  | some after =>
      obtain ⟨accepted, rfl⟩ := BoundedMap.enter?_eq_some_iff.1 entered
      exact enrolls.insert (enrolls.admits_iff.1 accepted) _

end Enrolls

end WashController
