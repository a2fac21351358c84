import Mathlib.Data.List.Induction
import WashController.Proofs.BoundedMap
import WashController.Proofs.LabelOrder

/-!
# First names are labels

Labels are kept by name, up to a capacity, and a name that is declared already always has its place.
So the labels of a table are the names that are `admitted` of those that were declared
(`enrolls_declareAll`). This tells which declarations are accepted, where a label points in the end,
and how many labels there are (`LabelTable.first_names_are_labels`).
-/

namespace WashController

/-! ## Labels -/

namespace LabelTable

variable {capacity offset : Nat} {name : String} {declarations earlier later : List (String × Nat)}
  {label : String × Nat}

theorem declareAll_concat (capacity : Nat) (declarations : List (String × Nat))
    (label : String × Nat) :
    declareAll capacity (declarations ++ [label]) =
      ((declareAll capacity declarations).declare? capacity label.1 label.2).getD
        (declareAll capacity declarations) := by
  rw [declareAll, List.foldl_append]
  rfl

/-- The labels of a table are the first names that are declared. -/
theorem enrolls_declareAll (capacity : Nat) (declarations : List (String × Nat)) :
    Enrolls capacity (declarations.map Prod.fst) (declareAll capacity declarations).offsets := by
  induction declarations using List.reverseRecOn with
  | nil => exact .empty capacity
  | append_singleton declarations label ih =>
      have entered : (declareAll capacity (declarations ++ [label])).offsets =
          (BoundedMap.enter? capacity (declareAll capacity declarations).offsets label.1
            fun _ => label.2).getD (declareAll capacity declarations).offsets := by
        rw [declareAll_concat]
        exact congrArg offsets (Option.getD_map mk _ _)
      rw [entered, List.map_append, List.map_singleton]
      exact ih.concat label.1 _

/-- A declaration is accepted just if its name is admitted after those before it. -/
theorem isSome_declare?_iff :
    ((declareAll capacity declarations).declare? capacity name offset).isSome ↔
      name ∈ admitted capacity (declarations.map Prod.fst ++ [name]) := by
  rw [← (enrolls_declareAll capacity declarations).admits_iff, Option.isSome_iff_ne_none, Ne,
    declare?_eq_none_iff, Bool.not_eq_false, admits]

/-- A declaration says nothing of other labels. -/
theorem get?_declareAll_concat_of_ne (different : label.1 ≠ name) :
    (declareAll capacity (declarations ++ [label])).get? name =
      (declareAll capacity declarations).get? name := by
  rw [declareAll_concat]
  cases declared : (declareAll capacity declarations).declare? capacity label.1 label.2 with
  | none => rfl
  | some table => rw [Option.getD_some, get?_of_declare? declared, if_neg different]

/-- The last declaration of a label counts, if its name is admitted at all. -/
theorem get?_declareAll (capacity : Nat) (declarations : List (String × Nat)) (name : String) :
    (declareAll capacity declarations).get? name =
      if name ∈ admitted capacity (declarations.map Prod.fst) then
        (declarations.filter fun label => label.1 = name).getLast?.map Prod.snd
      else none := by
  induction declarations using List.reverseRecOn with
  | nil => simp [declareAll]
  | append_singleton declarations label ih =>
      rw [List.map_append, List.map_singleton, List.filter_append]
      by_cases same : label.1 = name
      · subst same
        split
        next accepted =>
          obtain ⟨table, declared⟩ := Option.isSome_iff_exists.1 (isSome_declare?_iff.2 accepted)
          rw [declareAll_concat, declared, Option.getD_some, get?_of_declare? declared, if_pos rfl]
          simp
        next refused =>
          have before : label.1 ∉ admitted capacity (declarations.map Prod.fst) :=
            fun known => refused (mem_admitted_concat_iff.2 (.inl known))
          have declared : (declareAll capacity declarations).declare? capacity label.1 label.2 =
              none := Option.not_isSome_iff_eq_none.1 (mt isSome_declare?_iff.1 refused)
          rw [declareAll_concat, declared, Option.getD_none, ih, if_neg before]
      · have none : [label].filter (fun label => label.1 = name) = [] := by simp [same]
        rw [get?_declareAll_concat_of_ne same, ih, none, List.append_nil]
        simp only [mem_admitted_concat_of_ne same]

/-- The first names are the labels. Let labels be declared in any sequence, which goes on also after
some of them are refused. A declaration is accepted just if its name is among the first names of the
sequence, each counted once, and as many as the capacity says. In the end such a name points where
it was declared last, other names are not declared, and there are as many labels as there are
different names, or as the capacity allows. -/
theorem first_names_are_labels (capacity : Nat) (declarations : List (String × Nat)) :
    (∀ earlier name offset later, declarations = earlier ++ (name, offset) :: later →
      (((declareAll capacity earlier).declare? capacity name offset).isSome ↔
        name ∈ (declarations.map Prod.fst).eraseDups.take capacity)) ∧
    (∀ name, (declareAll capacity declarations).get? name =
      if name ∈ (declarations.map Prod.fst).eraseDups.take capacity then
        (declarations.filter fun label => label.1 = name).getLast?.map Prod.snd
      else none) ∧
    (declareAll capacity declarations).size =
      min capacity (declarations.map Prod.fst).eraseDups.length := by
  refine ⟨?_, get?_declareAll capacity declarations, ?_⟩
  · rintro earlier name offset later rfl
    have names : (earlier ++ (name, offset) :: later).map Prod.fst =
        earlier.map Prod.fst ++ [name] ++ later.map Prod.fst := by simp
    rw [isSome_declare?_iff, names]
    exact (mem_admitted_append_iff List.mem_concat_self).symm
  · exact (enrolls_declareAll capacity declarations).size_eq.trans List.length_take

/-- A name that is refused twice, and one that is moved while the table is full. -/
theorem first_names_are_labels_full :
    ∃ earlier : List (String × Nat), earlier = [("a", 1), ("b", 2), ("c", 3), ("a", 4)] ∧
      ((declareAll 2 earlier).declare? 2 "c" 5).isSome = false ∧
      (declareAll 2 (earlier ++ [("c", 5)])).get? "a" = some 4 ∧
      (declareAll 2 (earlier ++ [("c", 5)])).get? "c" = none ∧
      (declareAll 2 (earlier ++ [("c", 5)])).size = 2 := by
  let earlier := [("a", 1), ("b", 2), ("c", 3), ("a", 4)]
  obtain ⟨accepted, points, size⟩ := first_names_are_labels 2 (earlier ++ [("c", 5)])
  refine ⟨earlier, rfl, Bool.eq_false_iff.2 ?_, points "a", points "c", size⟩
  exact mt (accepted earlier "c" 5 [] rfl).1 (by decide)

end LabelTable

end WashController
