import WashController.Proofs.BoundedMap
import WashController.Proofs.Limits

/-!
# One source after another

What becomes of a source when another one is put in front of it or after it. As long as the first
one ends with a line (`Sealed`), the lines of both are the lines of the one and of the other, and so
is the program: the instructions of the first source keep their addresses, and those of the second
one come after them (`fetch?_append_left`, `fetch?_append_right`). Labels are decided by the source
that comes last: a name that the second one declares points where the second one says, behind the
first program (`get?_append_of_mem`), and any other name where the first one says
(`get?_append_of_not_mem`). Only the limits look at both sources at once, since instructions add up
and names may be shared (`fits_append_iff`). `assembles_part_by_part` puts all of this together.
-/

namespace WashController

/-! ## Names -/

/-- The names of the labels in a table. -/
def LabelTable.names (table : LabelTable) : Finset String :=
  BoundedMap.names table.offsets

@[simp]
theorem LabelTable.mem_names {table : LabelTable} {name : String} :
    name ∈ table.names ↔ (table.get? name).isSome :=
  BoundedMap.mem_names

/-! ## Lines -/

/-- An instruction whose source line is so many lines further down. -/
def CodeLine.moved (lines : Nat) (code : CodeLine) : CodeLine :=
  { code with line := code.line + lines }

namespace SourceLine

/-- Whether what follows a source starts on a line of its own. -/
def Sealed (source : String) : Prop :=
  source = "" ∨ ∃ text, source = text ++ "\n"

theorem ofSource_append {front : String} (closed : Sealed front) (back : String) :
    ofSource (front ++ back) = ofSource front ++ ofSource back := by
  rcases closed with rfl | ⟨text, rfl⟩
  · simp [ofSource]
  · have lines : Text.lines ((text ++ "\n") ++ back).toList =
        Text.lines (text ++ "\n").toList ++ Text.lines back.toList := by
      simpa using Text.lines_append_of_feed text.toList back.toList
    rw [ofSource, lines, List.map_append]
    rfl

theorem labelNames_append (lines rest : List SourceLine) :
    labelNames (lines ++ rest) = labelNames lines ∪ labelNames rest := by
  ext name
  simp

/-- Two sources keep to the limits together if each does, and their instructions and their names
taken together do. -/
theorem fits_append_iff {limits : Limits} {front back : List SourceLine} :
    Fits limits (front ++ back) ↔ Fits limits front ∧ Fits limits back ∧
      codeCount front + codeCount back ≤ limits.maxInstructions ∧
        (labelNames front ∪ labelNames back).card ≤ limits.maxLabels := by
  refine ⟨fun fits => ⟨?_, ?_, ?_, ?_⟩, fun given => ⟨?_, ?_⟩⟩
  · exact fits.of_sublist (List.sublist_append_left front back)
  · exact fits.of_sublist (List.sublist_append_right front back)
  · exact codeCount_append front back ▸ fits.1
  · exact labelNames_append front back ▸ fits.2
  · exact codeCount_append front back ▸ given.2.2.1
  · exact labelNames_append front back ▸ given.2.2.2

/-- The last of the lines that declare a name. -/
theorem exists_last_declaration {lines : List SourceLine} {name : String}
    (declared : .label name ∈ lines) :
    ∃ earlier later, lines = earlier ++ .label name :: later ∧
      ∀ line ∈ later, line ≠ .label name := by
  -- It is the first one of the lines in reverse.
  obtain ⟨later, earlier, split, final⟩ :=
    List.eq_append_cons_of_mem (List.mem_reverse.2 declared)
  refine ⟨earlier.reverse, later.reverse, by simpa using congrArg List.reverse split, ?_⟩
  intro line member same
  subst same
  exact final (List.mem_reverse.1 member)

end SourceLine

/-- Numbers that start later only move the instructions. -/
theorem filterMap_ofLine?_zipIdx_add (lines : List SourceLine) (first skipped : Nat) :
    (lines.zipIdx (first + skipped)).filterMap CodeLine.ofLine? =
      ((lines.zipIdx first).filterMap CodeLine.ofLine?).map (CodeLine.moved skipped) := by
  have numbers : lines.zipIdx (first + skipped) =
      (lines.zipIdx first).map (Prod.map id (· + skipped)) := by
    rw [List.map_snd_add_zipIdx_eq_zipIdx, Nat.add_comm]
  rw [numbers, List.filterMap_map, List.map_filterMap]
  refine congrArg (List.filterMap · _) (funext fun line => ?_)
  rcases line with ⟨_ | name | text, number⟩
  · rfl
  · rfl
  · simp only [CodeLine.ofLine?, Function.comp_apply, Prod.map_apply, id_eq]
    cases Instruction.ofText? text <;> rfl

namespace Assembly

variable {limits limitsFront limitsBack : Limits} {name nameFront nameBack : String}
  {log after logFront afterFront logBack afterBack : Log} {front back : List SourceLine}
  {whole first second : Assembly}

/-! ## Parts of a source that is assembled -/

/-- What is left of a source that is assembled, when lines are left out, is assembled too. -/
theorem exists_ofLines_of_sublist {part all : List SourceLine}
    (loaded : ofLines limits name all log = .ok whole after) (within : part.Sublist all)
    (other : String) (start : Log) :
    ∃ assembly final, ofLines limits other part start = .ok assembly final := by
  obtain ⟨assembly, loaded⟩ :=
    exists_ofLines ((fits_of_ofLines loaded).of_sublist within) other start
  exact ⟨assembly, _, loaded⟩

theorem program_of_ofLines {lines : List SourceLine}
    (loaded : ofLines limits name lines log = .ok whole after) :
    whole.program.toList = (lines.zipIdx 1).filterMap CodeLine.ofLine? := by
  obtain ⟨survey, -, rfl⟩ := survey_of_ofLines loaded
  rfl

/-- The labels of an assembly are the names that its lines declare. -/
theorem names_of_ofLines {lines : List SourceLine}
    (loaded : ofLines limits name lines log = .ok whole after) :
    whole.labels.names = SourceLine.labelNames lines := by
  ext label
  rw [LabelTable.mem_names, SourceLine.mem_labelNames]
  by_cases declared : .label label ∈ lines
  · obtain ⟨earlier, later, rfl, final⟩ := SourceLine.exists_last_declaration declared
    simp [get?_of_ofLines_of_declared loaded final]
  · have undeclared : ∀ line ∈ lines, line ≠ .label label :=
      fun line member same => declared (same ▸ member)
    simp [get?_of_ofLines_of_undeclared loaded undeclared, declared]

/-- A name has an address if one of the lines declares it, and only then. -/
theorem exists_get?_iff {lines : List SourceLine} {label : String}
    (loaded : ofLines limits name lines log = .ok whole after) :
    (∃ address, whole.labels.get? label = some address) ↔ .label label ∈ lines := by
  rw [← Option.isSome_iff_exists, ← LabelTable.mem_names, names_of_ofLines loaded,
    SourceLine.mem_labelNames]

section Append

variable (loaded : ofLines limits name (front ++ back) log = .ok whole after)
  (loadedFront : ofLines limitsFront nameFront front logFront = .ok first afterFront)
  (loadedBack : ofLines limitsBack nameBack back logBack = .ok second afterBack)

include loaded loadedFront loadedBack

/-- The program of both parts is the program of the first and then that of the second. -/
theorem program_append : whole.program.toList =
    first.program.toList ++ second.program.toList.map (CodeLine.moved front.length) := by
  rw [program_of_ofLines loaded, program_of_ofLines loadedFront, program_of_ofLines loadedBack,
    List.zipIdx_append, List.filterMap_append, filterMap_ofLine?_zipIdx_add]

theorem size_append : whole.size = first.size + second.size := by
  simpa [size] using congrArg List.length (program_append loaded loadedFront loadedBack)

/-- The first program keeps its addresses. -/
theorem fetch?_append_left {address : Nat} (inFront : address < first.size) :
    whole.fetch? address = first.fetch? address := by
  have here : address < first.program.toList.length := inFront
  rw [fetch?, ← Array.getElem?_toList, program_append loaded loadedFront loadedBack,
    List.getElem?_append_left here, Array.getElem?_toList]
  rfl

/-- The second program starts where the first one ends. -/
theorem fetch?_append_right (address : Nat) :
    whole.fetch? (address + first.size) =
      (second.fetch? address).map (CodeLine.moved front.length) := by
  have beyond : first.program.toList.length ≤ address + first.size := Nat.le_add_left _ _
  have rest : address + first.size - first.program.toList.length = address :=
    Nat.add_sub_cancel _ _
  rw [fetch?, ← Array.getElem?_toList, program_append loaded loadedFront loadedBack,
    List.getElem?_append_right beyond, rest, List.getElem?_map, Array.getElem?_toList]
  rfl

omit loadedFront

/-- A name that the second part declares points where the second part says, behind the
instructions of the first. -/
theorem get?_append_of_mem {label : String} (declared : .label label ∈ back) :
    whole.labels.get? label =
      (second.labels.get? label).map (· + SourceLine.codeCount front) := by
  obtain ⟨earlier, later, rfl, final⟩ := SourceLine.exists_last_declaration declared
  rw [← List.append_assoc] at loaded
  rw [get?_of_ofLines_of_declared loaded final, get?_of_ofLines_of_declared loadedBack final,
    SourceLine.codeCount_append, Option.map_some, Nat.add_comm]

omit loadedBack
include loadedFront

/-- Any other name points where the first part says, if it says so. -/
theorem get?_append_of_not_mem {label : String} (undeclared : .label label ∉ back) :
    whole.labels.get? label = first.labels.get? label := by
  have notBack : ∀ line ∈ back, line ≠ .label label :=
    fun line member same => undeclared (same ▸ member)
  by_cases declared : .label label ∈ front
  · obtain ⟨earlier, later, rfl, final⟩ := SourceLine.exists_last_declaration declared
    rw [List.append_assoc, List.cons_append] at loaded
    have final' : ∀ line ∈ later ++ back, line ≠ .label label := by
      intro line member
      rcases List.mem_append.1 member with inFront | inBack
      · exact final line inFront
      · exact notBack line inBack
    rw [get?_of_ofLines_of_declared loaded final', get?_of_ofLines_of_declared loadedFront final]
  · have notFront : ∀ line ∈ front, line ≠ .label label :=
      fun line member same => declared (same ▸ member)
    have nowhere : ∀ line ∈ front ++ back, line ≠ .label label := by
      intro line member
      rcases List.mem_append.1 member with inFront | inBack
      · exact notFront line inFront
      · exact notBack line inBack
    rw [get?_of_ofLines_of_undeclared loaded nowhere,
      get?_of_ofLines_of_undeclared loadedFront notFront]

end Append

/-! ## In terms of the sources -/

theorem label_mem_ofSource_iff {source label : String} :
    .label label ∈ SourceLine.ofSource source ↔
      ∃ line ∈ Text.lines source.toList, SourceLine.Declares line label := by
  simp only [SourceLine.ofSource, List.mem_map, SourceLine.ofText_eq_label_iff]

/-- A source of two parts, the first of which ends with a line, is assembled part by part. It is
assembled just when both parts are, and when their instructions taken together, and their names
taken together, are no more than the limits allow. Then its program is that of the first part, and
after it that of the second with the lines numbered on. A label that the second part declares
points where it points in that part, further by the instructions of the first part; any other label
points where it points in the first part. -/
theorem assembles_part_by_part {front : String} (closed : SourceLine.Sealed front) (back : String)
    (limits : Limits) (name nameFront nameBack : String) (log logFront logBack : Log) :
    ((∃ whole after, ofSource limits name (front ++ back) log = .ok whole after) ↔
      ∃ first second afterFront afterBack,
        ofSource limits nameFront front logFront = .ok first afterFront ∧
        ofSource limits nameBack back logBack = .ok second afterBack ∧
        first.size + second.size ≤ limits.maxInstructions ∧
        (first.labels.names ∪ second.labels.names).card ≤ limits.maxLabels) ∧
    ∀ whole first second after afterFront afterBack,
      ofSource limits name (front ++ back) log = .ok whole after →
      ofSource limits nameFront front logFront = .ok first afterFront →
      ofSource limits nameBack back logBack = .ok second afterBack →
        whole.program.toList = first.program.toList ++
          second.program.toList.map (CodeLine.moved (Text.lines front.toList).length) ∧
        ∀ label,
          ((∃ line ∈ Text.lines back.toList, SourceLine.Declares line label) →
            ∃ address, second.labels.get? label = some address ∧
              whole.labels.get? label = some (address + first.size)) ∧
          ((∀ line ∈ Text.lines back.toList, ¬ SourceLine.Declares line label) →
            whole.labels.get? label = first.labels.get? label) := by
  have split := SourceLine.ofSource_append closed back
  refine ⟨⟨?_, ?_⟩, ?_⟩
  · intro given
    obtain ⟨whole, after, loaded⟩ := given
    rw [ofSource, split] at loaded
    obtain ⟨fitsFront, fitsBack, code, names⟩ :=
      SourceLine.fits_append_iff.1 (fits_of_ofLines loaded)
    obtain ⟨first, loadedFront⟩ := exists_ofLines fitsFront nameFront logFront
    obtain ⟨second, loadedBack⟩ := exists_ofLines fitsBack nameBack logBack
    refine ⟨first, second, _, _, loadedFront, loadedBack, ?_, ?_⟩
    · rwa [size_of_ofLines loadedFront (SourceLine.readable_ofSource front),
        size_of_ofLines loadedBack (SourceLine.readable_ofSource back)]
    · rwa [names_of_ofLines loadedFront, names_of_ofLines loadedBack]
  · intro given
    obtain ⟨first, second, _, _, loadedFront, loadedBack, code, names⟩ := given
    rw [size_of_ofLines loadedFront (SourceLine.readable_ofSource front),
      size_of_ofLines loadedBack (SourceLine.readable_ofSource back)] at code
    rw [names_of_ofLines loadedFront, names_of_ofLines loadedBack] at names
    obtain ⟨whole, loaded⟩ := exists_ofLines (SourceLine.fits_append_iff.2
      ⟨fits_of_ofLines loadedFront, fits_of_ofLines loadedBack, code, names⟩) name log
    exact ⟨whole, _, by rw [ofSource, split]; exact loaded⟩
  · intro whole first second after afterFront afterBack loaded loadedFront loadedBack
    rw [ofSource, split] at loaded
    have lines : (SourceLine.ofSource front).length = (Text.lines front.toList).length :=
      List.length_map _
    refine ⟨lines ▸ program_append loaded loadedFront loadedBack, fun label => ⟨?_, ?_⟩⟩
    · intro declared
      have inBack : .label label ∈ SourceLine.ofSource back := label_mem_ofSource_iff.2 declared
      obtain ⟨address, found⟩ : ∃ address, second.labels.get? label = some address := by
        rw [← Option.isSome_iff_exists, ← LabelTable.mem_names, names_of_ofLines loadedBack,
          SourceLine.mem_labelNames]
        exact inBack
      refine ⟨address, found, ?_⟩
      rw [get?_append_of_mem loaded loadedBack inBack, found,
        size_of_ofLines loadedFront (SourceLine.readable_ofSource front)]
      rfl
    · intro undeclared
      refine get?_append_of_not_mem loaded loadedFront fun inBack => ?_
      obtain ⟨line, member, declared⟩ := label_mem_ofSource_iff.1 inBack
      exact undeclared line member declared

/-- Two parts that share a label, with just as much room as they need together. The label points
where the second part says, and the jump to it stands in the first. -/
theorem assembles_part_by_part_shared_label :
    ∃ whole after,
      ofSource { maxInstructions := 3, maxLabels := 1 } "whole"
        ("again:\nJMP again\n" ++ "WAIT\nagain:\nHALT\n") #[] = .ok whole after ∧
      whole.program.toList =
        [⟨.jump .always "again", 2⟩] ++ [⟨.wait, 1⟩, ⟨.halt, 3⟩].map (CodeLine.moved 2) ∧
      whole.labels.get? "again" = some (1 + 1) := by
  let first : Assembly := ⟨"front", #[⟨.jump .always "again", 2⟩], ⟨{("again", 0)}⟩⟩
  let second : Assembly := ⟨"back", #[⟨.wait, 1⟩, ⟨.halt, 3⟩], ⟨{("again", 1)}⟩⟩
  have loadedFront : ofSource { maxInstructions := 3, maxLabels := 1 } "front"
      "again:\nJMP again\n" #[] = .ok first #[] := rfl
  have loadedBack : ofSource { maxInstructions := 3, maxLabels := 1 } "back"
      "WAIT\nagain:\nHALT\n" #[] = .ok second #[] := rfl
  have closed : SourceLine.Sealed "again:\nJMP again\n" := .inr ⟨"again:\nJMP again", by decide⟩
  obtain ⟨assembles, parts⟩ := assembles_part_by_part closed "WAIT\nagain:\nHALT\n"
    { maxInstructions := 3, maxLabels := 1 } "whole" "front" "back" #[] #[] #[]
  obtain ⟨whole, after, loaded⟩ := assembles.2
    ⟨first, second, #[], #[], loadedFront, loadedBack, by decide, by decide⟩
  obtain ⟨program, labels⟩ := parts _ _ _ _ _ _ loaded loadedFront loadedBack
  obtain ⟨address, found, there⟩ := (labels "again").1 (by decide)
  have here : second.labels.get? "again" = some 1 := by decide
  rw [here] at found
  cases found
  exact ⟨whole, after, loaded, program, there⟩

end Assembly

end WashController
