import WashController.Assembly.Listing

/-!
# The entries of a listing

What a listing shows, apart from how it is written: below its head stand entries, which are labels
and instructions (`rows_eq`). The instructions are the program, in order (`codes_entries`). A label
stands right before what it points at, and so the labels are shown in their order, each after as
many instructions as its offset says, or after all of them if its offset is past the end
(`places_entries`).
-/

namespace WashController.Assembly

/-- A line of a listing below its head. -/
inductive Entry
  | label (name : String)
  | code (address : Nat) (line : CodeLine)
  deriving DecidableEq

namespace Entry

/-- How an entry is written. -/
def text : Entry → String
  | label name => labelRow name
  | code address line => codeRow address line

/-- The instruction that an entry shows, if it shows one. -/
def code? : Entry → Option CodeLine
  | label _ => none
  | code _ line => some line

/-- The labels among entries, each with the number of instructions before it. So many instructions
as given stand before all of the entries. -/
def places : Nat → List Entry → List (String × Nat)
  | _, [] => []
  | before, label name :: entries => (name, before) :: places before entries
  | before, code _ _ :: entries => places (before + 1) entries

/-- The entries of those labels, of the ones given, whose offset is as asked for. -/
def ofLabels (labels : List (String × Nat)) (offset : Nat → Bool) : List Entry :=
  (labels.filter fun label => offset label.2).map fun label => .label label.1

/-- The entries of instructions from an address on, with the labels that point at them or past
them. -/
def ofProgram (labels : List (String × Nat)) : Nat → List CodeLine → List Entry
  | address, [] => ofLabels labels (address ≤ ·)
  | address, line :: program =>
    ofLabels labels (· = address) ++ code address line :: ofProgram labels (address + 1) program

variable {labels : List (String × Nat)}

theorem map_text_ofLabels (offset : Nat → Bool) :
    (ofLabels labels offset).map text = labelRows labels offset := by
  rw [ofLabels, List.map_map]
  rfl

theorem filterMap_code?_ofLabels (offset : Nat → Bool) :
    (ofLabels labels offset).filterMap code? = [] := by
  refine List.filterMap_eq_nil_iff.2 fun entry member => ?_
  obtain ⟨label, -, rfl⟩ := List.mem_map.1 member
  rfl

theorem places_ofLabels_append (before : Nat) (offset : Nat → Bool) (entries : List Entry) :
    places before (ofLabels labels offset ++ entries) =
      ((labels.filter fun label => offset label.2).map fun label => (label.1, before)) ++
        places before entries := by
  unfold ofLabels
  induction labels.filter fun label => offset label.2 with
  | nil => rfl
  | cons label labels ih => exact congrArg ((label.1, before) :: ·) ih

/-- Every label among entries stands somewhere. -/
theorem exists_mem_places {name : String} {entries : List Entry} (before : Nat)
    (member : label name ∈ entries) : ∃ place, (name, place) ∈ places before entries := by
  induction entries generalizing before with
  | nil => cases member
  | cons entry entries ih =>
      rcases List.mem_cons.1 member with rfl | later
      · exact ⟨before, List.mem_cons_self⟩
      · cases entry with
        | label other => exact (ih before later).imp fun _ => List.mem_cons_of_mem _
        | code => exact ih (before + 1) later

/-- Labels in order are those at an offset and then those after it. -/
theorem filter_le_eq_append (ordered : labels.Pairwise fun left right => left.2 ≤ right.2)
    (offset : Nat) :
    labels.filter (fun label => offset ≤ label.2) =
      labels.filter (fun label => label.2 = offset) ++
        labels.filter (fun label => offset + 1 ≤ label.2) := by
  induction labels with
  | nil => rfl
  | cons label labels ih =>
      obtain ⟨first, rest⟩ := List.pairwise_cons.1 ordered
      rw [List.filter_cons, List.filter_cons, List.filter_cons]
      rcases Nat.lt_trichotomy label.2 offset with before | here | later
      · have short : ¬ offset ≤ label.2 := Nat.not_le_of_lt before
        have notHere : ¬ label.2 = offset := Nat.ne_of_lt before
        have notPast : ¬ offset + 1 ≤ label.2 := fun past => short (Nat.le_of_succ_le past)
        simp only [short, notHere, notPast, decide_false, Bool.false_eq_true, if_false, ih rest]
      · subst here
        simp only [Nat.le_refl, Nat.not_succ_le_self, decide_true, decide_false, Bool.false_eq_true,
          if_true, if_false, ih rest, List.cons_append]
      · have atLeast : offset ≤ label.2 := Nat.le_of_lt later
        have notHere : ¬ label.2 = offset := Nat.ne_of_gt later
        have past : offset + 1 ≤ label.2 := later
        -- Nothing in the rest points as far back as the offset.
        have none : labels.filter (fun label => label.2 = offset) = [] := by
          refine List.filter_eq_nil_iff.2 fun other member => ?_
          have further : label.2 ≤ other.2 := first other member
          simpa using Nat.ne_of_gt (Nat.lt_of_lt_of_le later further)
        simp only [atLeast, notHere, past, decide_true, decide_false, Bool.false_eq_true, if_true,
          if_false, ih rest, none, List.nil_append]

/-- Labels stand before what they point at, or at the end. -/
theorem places_ofProgram (ordered : labels.Pairwise fun left right => left.2 ≤ right.2)
    (address : Nat) (program : List CodeLine) :
    places address (ofProgram labels address program) =
      (labels.filter fun label => address ≤ label.2).map fun label =>
        (label.1, min label.2 (address + program.length)) := by
  induction program generalizing address with
  | nil =>
      rw [ofProgram, ← List.append_nil (ofLabels labels _), places_ofLabels_append, places,
        List.append_nil]
      refine List.map_congr_left fun label member => ?_
      have past : address ≤ label.2 := by simpa using (List.mem_filter.1 member).2
      simp [past]
  | cons line program ih =>
      rw [ofProgram, places_ofLabels_append, places, ih, filter_le_eq_append ordered address,
        List.map_append]
      congr 1
      · refine List.map_congr_left fun label member => ?_
        have here : label.2 = address := by simpa using (List.mem_filter.1 member).2
        simp [here]
      · simp [Nat.add_right_comm, Nat.add_assoc]

end Entry

/-- The entries of a listing. -/
def entries (assembly : Assembly) : List Entry :=
  Entry.ofProgram assembly.labels.sorted 0 assembly.program.toList

theorem rows_eq (assembly : Assembly) : assembly.rows = assembly.entries.map Entry.text := by
  have general (labels : List (String × Nat)) (address : Nat) (program : List CodeLine) :
      (program.zipIdx address).flatMap (fun line =>
          labelRows labels (· = line.2) ++ [codeRow line.2 line.1]) ++
        labelRows labels (address + program.length ≤ ·) =
      (Entry.ofProgram labels address program).map Entry.text := by
    induction program generalizing address with
    | nil => simp [Entry.ofProgram, Entry.map_text_ofLabels]
    | cons line program ih =>
        rw [Entry.ofProgram, List.map_append, Entry.map_text_ofLabels, List.map_cons, ← ih]
        simp [Entry.text, Nat.add_right_comm, Nat.add_assoc]
  have whole := general assembly.labels.sorted 0 assembly.program.toList
  rwa [Nat.zero_add, Array.length_toList] at whole

/-- A listing shows the instructions of the program, in order. -/
theorem codes_entries (assembly : Assembly) :
    assembly.entries.filterMap Entry.code? = assembly.program.toList := by
  have general (labels : List (String × Nat)) (address : Nat) (program : List CodeLine) :
      (Entry.ofProgram labels address program).filterMap Entry.code? = program := by
    induction program generalizing address with
    | nil => exact Entry.filterMap_code?_ofLabels _
    | cons line program ih =>
        rw [Entry.ofProgram, List.filterMap_append, Entry.filterMap_code?_ofLabels,
          List.nil_append, List.filterMap_cons, ih]
        rfl
  exact general _ _ _

/-- A listing shows the labels in order, each after as many instructions as its offset says. -/
theorem places_entries (assembly : Assembly) :
    Entry.places 0 assembly.entries =
      assembly.labels.sorted.map fun label => (label.1, min label.2 assembly.size) := by
  have ordered : assembly.labels.sorted.Pairwise fun left right => left.2 ≤ right.2 := by
    refine assembly.labels.sorted_ordered.imp fun {left right} sorted => ?_
    have compared := Ordering.isLE_left_of_isLE_then sorted
    exact Std.isLE_compare.1 compared
  have all : assembly.labels.sorted.filter (fun label => 0 ≤ label.2) = assembly.labels.sorted :=
    List.filter_eq_self.2 fun label _ => decide_eq_true (Nat.zero_le label.2)
  rw [entries, Entry.places_ofProgram ordered, all, Nat.zero_add, Array.length_toList]
  rfl

end WashController.Assembly
