import Mathlib.Data.List.Sort
import Mathlib.Data.String.Basic
import WashController.Proofs.Entries

/-!
# The order of labels in a listing

Labels are listed by what they point at, and by name where they point at the same. This order is
strict (`Before`), so that only one list is in order and has just the labels of a table in it
(`eq_sorted_iff`). In what order the labels are taken from the table before they are sorted makes
no difference to it (`mergeSort_eq_sorted`). With what is known of the entries of a listing and of
how they are written, each label is shown once, in order and at what it points at
(`labels_shown_in_order`), and the declarations of a table have no part in its listing beyond what
they come to in the end.
-/

namespace WashController

namespace LabelTable

/-! ## The order -/

/-- Whether a label stands before another one in a listing: it points at something earlier, or at
the same, and its name comes first in the order of code points. -/
def Before (left right : String × Nat) : Prop :=
  left.2 < right.2 ∨ left.2 = right.2 ∧ left.1 < right.1

instance : DecidableRel Before :=
  fun left right => inferInstanceAs (Decidable (left.2 < right.2 ∨ _))

theorem order_eq_lt_iff {left right : String × Nat} :
    order left right = .lt ↔ Before left right := by
  simp only [order, compareLex, compareOn, Ordering.then_eq_lt, compare_lt_iff_lt,
    Nat.compare_eq_eq, Before]

theorem order_eq_eq_iff {left right : String × Nat} : order left right = .eq ↔ left = right := by
  simp only [order, compareLex, compareOn, Ordering.then_eq_eq, compare_eq_iff_eq, Prod.ext_iff,
    and_comm]

instance : Std.Irrefl Before where
  irrefl label before := by
    have ordered := order_eq_lt_iff.2 before
    rw [order_eq_eq_iff.2 rfl] at ordered
    cases ordered

instance : Std.Antisymm Before where
  antisymm left right before after := by
    have swapped : order right left = (order left right).swap := Std.OrientedCmp.eq_swap
    rw [order_eq_lt_iff.2 before, order_eq_lt_iff.2 after] at swapped
    cases swapped

/-! ## Sorting -/

section Sorting

variable {table : LabelTable} {labels : List (String × Nat)}

/-- Labels of which no two are the same are strictly in order once they are sorted. -/
theorem before_mergeSort (nodup : labels.Nodup) :
    (labels.mergeSort fun left right => (order left right).isLE).Pairwise Before := by
  have distinct : (labels.mergeSort fun left right => (order left right).isLE).Nodup :=
    (List.mergeSort_perm labels _).nodup_iff.2 nodup
  refine (mergeSort_ordered labels).imp₂ (fun left right ordered different => ?_) distinct
  cases compared : order left right with
  | lt => exact order_eq_lt_iff.1 compared
  | eq => exact absurd (order_eq_eq_iff.1 compared) different
  | gt => simp [compared] at ordered

theorem before_sorted (table : LabelTable) : table.sorted.Pairwise Before := by
  refine before_mergeSort (table.offsets.distinct_keys_toList.imp fun distinct same => ?_)
  exact distinct (same ▸ Std.ReflCmp.compare_self)

/-- Only one list is in order and has just the labels of the table. -/
theorem eq_sorted_iff : labels = table.sorted ↔ labels.Pairwise Before ∧
    ∀ name offset, (name, offset) ∈ labels ↔ table.get? name = some offset := by
  refine ⟨?_, ?_⟩
  · rintro rfl
    exact ⟨before_sorted table, fun name offset => mem_sorted⟩
  · rintro ⟨ordered, members⟩
    refine ordered.eq_of_mem_iff (before_sorted table) fun label => ?_
    rw [members, mem_sorted]

/-- The labels of a table come out the same, in whatever order they are taken to be sorted. -/
theorem mergeSort_eq_sorted (nodup : labels.Nodup)
    (members : ∀ name offset, (name, offset) ∈ labels ↔ table.get? name = some offset) :
    (labels.mergeSort fun left right => (order left right).isLE) = table.sorted := by
  refine eq_sorted_iff.2 ⟨before_mergeSort nodup, fun name offset => ?_⟩
  rw [List.mem_mergeSort, members]

end Sorting

/-! ## Declarations -/

/-- The table that declarations come to, one after the other. Those that are refused are left
out. -/
def declareAll (capacity : Nat) (declarations : List (String × Nat)) : LabelTable :=
  declarations.foldl (fun table label => (table.declare? capacity label.1 label.2).getD table)
    .empty

end LabelTable

namespace Assembly

/-- A listing shows every label once, in order and in place. It is the head line, which has the
name and the number of instructions, and below it the lines of its entries: a label is its name
between a space and a colon, an instruction is its address in brackets, its text set in a column,
and its source line. The instructions are those of the program, in order; and from top to bottom
the labels are the sorted ones, each after as many instructions as its offset says, or after all of
them if the offset is past the end. The sorted labels are the only list that has just the labels of
the table and is strictly in order, by offset and then by name; and to sort the labels gives this
list, in whatever order they come out of the table. So declarations that come to the same offset
for each name come to the same listing. -/
theorem labels_shown_in_order (assembly : Assembly) :
    (assembly.listing = "Assembly '" ++ assembly.name ++ "' - " ++ assembly.size.repr ++
        " instructions:\n" ++ String.join (assembly.entries.map Entry.text) ∧
      (∀ name, Entry.text (.label name) = " " ++ name ++ ":\n") ∧
      ∀ address code, Entry.text (.code address code) = "  [" ++ Text.index address ++ "] " ++
        Text.padRight 24 code.instruction.text ++ " ; line " ++ code.line.repr ++ "\n") ∧
    (assembly.rows = assembly.entries.map Entry.text ∧
      assembly.entries.filterMap Entry.code? = assembly.program.toList ∧
      Entry.places 0 assembly.entries =
        assembly.labels.sorted.map fun label => (label.1, min label.2 assembly.size)) ∧
    (∀ labels, labels = assembly.labels.sorted ↔ labels.Pairwise LabelTable.Before ∧
      ∀ name offset, (name, offset) ∈ labels ↔ assembly.labels.get? name = some offset) ∧
    (∀ labels : List (String × Nat), labels.Nodup →
      (∀ name offset, (name, offset) ∈ labels ↔ assembly.labels.get? name = some offset) →
      (labels.mergeSort fun left right => (LabelTable.order left right).isLE) =
        assembly.labels.sorted) ∧
    ∀ capacity declarations other others,
      (∀ name, (LabelTable.declareAll capacity declarations).get? name =
        (LabelTable.declareAll other others).get? name) →
      { assembly with labels := .declareAll capacity declarations }.listing =
        { assembly with labels := .declareAll other others }.listing := by
  refine ⟨⟨?_, fun _ => rfl, fun _ _ => rfl⟩,
    ⟨rows_eq assembly, codes_entries assembly, places_entries assembly⟩,
    fun labels => LabelTable.eq_sorted_iff, fun labels => LabelTable.mergeSort_eq_sorted, ?_⟩
  · rw [listing, rows_eq]
  · intro capacity declarations other others same
    rw [LabelTable.ext same]

/-- A label past the end, two labels at one place, and a label that is moved. It makes no difference
that the same is declared in another order. -/
theorem labels_shown_in_order_past_end :
    ∃ assembly : Assembly,
      assembly.name = "past" ∧ assembly.program = #[⟨.halt, 2⟩] ∧
      assembly.labels = .declareAll 3 [("end", 7), ("b", 0), ("a", 3), ("a", 0)] ∧
      Entry.places 0 assembly.entries = [("a", 0), ("b", 0), ("end", 1)] ∧
      assembly.listing = "Assembly 'past' - 1 instructions:\n a:\n b:\n" ++
        "  [0000] HALT                     ; line 2\n end:\n" ∧
      assembly.listing =
        { assembly with labels := .declareAll 9 [("a", 0), ("b", 0), ("end", 7)] }.listing := by
  let labels := LabelTable.declareAll 3 [("end", 7), ("b", 0), ("a", 3), ("a", 0)]
  have listed : labels.offsets.toList = [("a", 0), ("b", 0), ("end", 7)] := by decide
  have again : labels = .declareAll 9 [("a", 0), ("b", 0), ("end", 7)] := by decide
  let assembly : Assembly := ⟨"past", #[⟨.halt, 2⟩], labels⟩
  obtain ⟨⟨written, -, -⟩, ⟨-, -, places⟩, unique, -, declared⟩ := labels_shown_in_order assembly
  have sorted : [("a", 0), ("b", 0), ("end", 7)] = labels.sorted := by
    refine (unique _).2 ⟨by decide, fun name offset => ?_⟩
    rw [← listed]
    exact Std.ExtTreeMap.mem_toList_iff_getElem?_eq_some
  have entries : assembly.entries =
      [.label "a", .label "b", .code 0 ⟨.halt, 2⟩, .label "end"] := by
    rw [Assembly.entries, ← sorted]
    rfl
  refine ⟨assembly, rfl, rfl, rfl, ?_, ?_,
    declared _ _ _ _ fun name => congrArg (·.get? name) again⟩
  · rw [places, ← sorted]
    rfl
  · rw [written, entries]
    decide

end Assembly

end WashController
