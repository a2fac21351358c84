import WashController.Proofs.SourceLine
import WashController.Proofs.Survey

/-!
# Addresses

The two passes over a source agree. The first pass counts instruction lines, the second one decodes
them, and neither looks at the other; so it takes an argument that a label points at the instruction
its author meant. The second pass decodes every line that the first one counts
(`length_filterMap_ofLine?`), for a line that holds code has a first word. Hence the count of a
prefix of the lines is the address of what follows the prefix (`getElem?_filterMap_ofLine?`).
-/

namespace WashController

variable {limits : Limits} {log after : Log}

/-! ## The second pass -/

section SecondPass

variable {lines : List SourceLine}

/-- Every line that holds an instruction has one to decode. -/
def SourceLine.Readable (lines : List SourceLine) : Prop :=
  ∀ text, .code text ∈ lines → ∃ instruction, Instruction.ofText? text = some instruction

theorem SourceLine.readable_ofSource (source : String) : Readable (ofSource source) := by
  intro text member
  obtain ⟨line, -, said⟩ := List.mem_map.1 member
  obtain ⟨holds, rfl⟩ := ofText_eq_code_iff.1 said
  exact ⟨spelled line, ofText?_trim holds⟩

theorem SourceLine.Readable.of_subset {some all : List SourceLine} (readable : Readable all)
    (subset : some ⊆ all) : Readable some :=
  fun text member => readable text (subset member)

/-- The second pass keeps every line that the first pass counts. -/
theorem length_filterMap_ofLine? (first : Nat) (readable : SourceLine.Readable lines) :
    ((lines.zipIdx first).filterMap CodeLine.ofLine?).length = SourceLine.codeCount lines := by
  induction lines generalizing first with
  | nil => rfl
  | cons line lines ih =>
      have rest : ((lines.zipIdx (first + 1)).filterMap CodeLine.ofLine?).length =
          SourceLine.codeCount lines :=
        ih (first + 1) (readable.of_subset (List.subset_cons_self line lines))
      rw [List.zipIdx_cons, List.filterMap_cons, SourceLine.codeCount_cons]
      cases line with
      | blank | label => simpa [CodeLine.ofLine?, SourceLine.isCode] using rest
      | code text =>
          obtain ⟨instruction, decoded⟩ := readable text List.mem_cons_self
          simpa [CodeLine.ofLine?, SourceLine.isCode, decoded] using rest

/-- After a prefix of the lines, the next instruction has the number of instructions in the prefix
for its address, whatever lines without instructions stand between. -/
theorem getElem?_filterMap_ofLine? (first : Nat) {skipped : List SourceLine}
    (rest : List SourceLine) {text : List Char} {instruction : Instruction}
    (readable : SourceLine.Readable lines)
    (noCode : ∀ line ∈ skipped, line.isCode = false)
    (decoded : Instruction.ofText? text = some instruction) :
    (((lines ++ (skipped ++ .code text :: rest)).zipIdx first).filterMap
        CodeLine.ofLine?)[SourceLine.codeCount lines]? =
      some ⟨instruction, first + lines.length + skipped.length⟩ := by
  have none : (skipped.zipIdx (first + lines.length)).filterMap CodeLine.ofLine? = [] := by
    refine List.filterMap_eq_nil_iff.2 fun line member => ?_
    have plain := noCode line.1 (List.fst_mem_of_mem_zipIdx member)
    rcases line with ⟨_ | name | text, number⟩
    · rfl
    · rfl
    · cases plain
  have count : ((lines.zipIdx first).filterMap CodeLine.ofLine?).length =
      SourceLine.codeCount lines := length_filterMap_ofLine? first readable
  rw [List.zipIdx_append, List.zipIdx_append, List.filterMap_append, List.filterMap_append, none,
    List.nil_append, List.zipIdx_cons, List.filterMap_cons, ← count,
    List.getElem?_append_right (Nat.le_refl _)]
  simp [CodeLine.ofLine?, decoded]

end SecondPass

/-! ## Both passes -/

namespace Assembly

variable {name : String} {lines : List SourceLine} {assembly : Assembly}

/-- What assembling amounts to when it succeeds: a survey of the lines, for its labels, and the
instructions that the second pass decodes. -/
theorem survey_of_ofLines (loaded : ofLines limits name lines log = .ok assembly after) :
    ∃ survey : Survey,
      (lines.zipIdx 1).foldlM (Survey.extend limits) .empty log = .ok survey after ∧
        assembly =
          ⟨name, ((lines.zipIdx 1).filterMap CodeLine.ofLine?).toArray, survey.labels⟩ := by
  obtain ⟨survey, between, surveyed, made⟩ := bind_eq_ok_iff.1 loaded
  obtain ⟨rfl, rfl⟩ := pure_eq_ok_iff.1 made
  exact ⟨survey, surveyed, rfl⟩

theorem size_of_ofLines (loaded : ofLines limits name lines log = .ok assembly after)
    (readable : SourceLine.Readable lines) : assembly.size = SourceLine.codeCount lines := by
  obtain ⟨survey, -, rfl⟩ := survey_of_ofLines loaded
  exact length_filterMap_ofLine? 1 readable

theorem get?_of_ofLines_of_undeclared {label : String}
    (loaded : ofLines limits name lines log = .ok assembly after)
    (undeclared : ∀ line ∈ lines, line ≠ .label label) : assembly.labels.get? label = none := by
  obtain ⟨survey, surveyed, rfl⟩ := survey_of_ofLines loaded
  rw [Survey.get?_of_undeclared surveyed undeclared]
  simp [Survey.empty, LabelTable.empty, LabelTable.get?]

theorem get?_of_ofLines_of_declared {label : String} {rest : List SourceLine}
    (loaded : ofLines limits name (lines ++ .label label :: rest) log = .ok assembly after)
    (final : ∀ line ∈ rest, line ≠ .label label) :
    assembly.labels.get? label = some (SourceLine.codeCount lines) := by
  obtain ⟨survey, surveyed, rfl⟩ := survey_of_ofLines loaded
  rw [Survey.get?_of_declared surveyed final]
  simp [Survey.empty]

/-- No label of an assembly points past the end of its program. -/
theorem le_size_of_get? {source : String}
    (loaded : ofSource limits name source log = .ok assembly after) {label : String}
    {address : Nat} (found : assembly.labels.get? label = some address) :
    address ≤ assembly.size := by
  have size := size_of_ofLines loaded (SourceLine.readable_ofSource source)
  obtain ⟨survey, surveyed, rfl⟩ := survey_of_ofLines loaded
  have bounded := Survey.addressed_of_foldlM surveyed Survey.addressed_empty label address found
  rw [Survey.offset_of_foldlM surveyed] at bounded
  simpa [Survey.empty, size] using bounded

theorem size_le_maxInstructions {source : String}
    (loaded : ofSource limits name source log = .ok assembly after) :
    assembly.size ≤ limits.maxInstructions := by
  have size := size_of_ofLines loaded (SourceLine.readable_ofSource source)
  obtain ⟨survey, surveyed, rfl⟩ := survey_of_ofLines loaded
  have bounded := Survey.offset_le_of_foldlM surveyed (Nat.zero_le _)
  rw [Survey.offset_of_foldlM surveyed] at bounded
  simpa [Survey.empty, size] using bounded

/-! ## In terms of the source -/

section Source

variable {source : String}

/-- The program is what the lines that hold code spell, in order and with their numbers. -/
theorem program_of_ofSource (loaded : ofSource limits name source log = .ok assembly after) :
    assembly.program.toList =
      ((Text.lines source.toList).zipIdx 1).filterMap fun (line, number) =>
        if SourceLine.HoldsCode line then some ⟨SourceLine.spelled line, number⟩ else none := by
  obtain ⟨survey, -, rfl⟩ := survey_of_ofLines loaded
  simp only [SourceLine.ofSource, List.zipIdx_map, List.filterMap_map]
  refine congrArg (List.filterMap · _) (funext fun (line, number) => ?_)
  by_cases holds : SourceLine.HoldsCode line
  · have said : SourceLine.ofText line = .code (Text.trim line) :=
      SourceLine.ofText_eq_code_iff.2 ⟨holds, rfl⟩
    simp [CodeLine.ofLine?, said, holds, SourceLine.ofText?_trim holds]
  · have plain : (SourceLine.ofText line).isCode = false := by
      simpa [holds] using mt SourceLine.isCode_ofText_iff.1 holds
    cases said : SourceLine.ofText line with
    | code => simp [said, SourceLine.isCode] at plain
    | blank | label => simp [CodeLine.ofLine?, said, holds]

theorem get?_of_ofSource_of_undeclared {label : String}
    (loaded : ofSource limits name source log = .ok assembly after)
    (undeclared : ∀ line ∈ Text.lines source.toList, ¬ SourceLine.Declares line label) :
    assembly.labels.get? label = none := by
  refine get?_of_ofLines_of_undeclared loaded fun said member isLabel => ?_
  obtain ⟨line, inSource, rfl⟩ := List.mem_map.1 member
  exact undeclared line inSource (SourceLine.ofText_eq_label_iff.1 isLabel)

/-- A label that is in the table is declared by a line. -/
theorem exists_declares_of_get? {label : String} {address : Nat}
    (loaded : ofSource limits name source log = .ok assembly after)
    (found : assembly.labels.get? label = some address) :
    ∃ line ∈ Text.lines source.toList, SourceLine.Declares line label := by
  refine Classical.byContradiction fun none => ?_
  rw [get?_of_ofSource_of_undeclared loaded fun line member declares =>
    none ⟨line, member, declares⟩] at found
  cases found

theorem get?_of_ofSource_of_declared {label : String} {earlier later : List (List Char)}
    {line : List Char} (loaded : ofSource limits name source log = .ok assembly after)
    (split : Text.lines source.toList = earlier ++ line :: later)
    (declared : SourceLine.Declares line label)
    (final : ∀ other ∈ later, ¬ SourceLine.Declares other label) :
    assembly.labels.get? label = some (SourceLine.codeCount (earlier.map SourceLine.ofText)) := by
  have said : SourceLine.ofText line = .label label := SourceLine.ofText_eq_label_iff.2 declared
  rw [ofSource, SourceLine.ofSource, split, List.map_append, List.map_cons, said] at loaded
  refine get?_of_ofLines_of_declared loaded fun said member isLabel => ?_
  obtain ⟨other, follows, rfl⟩ := List.mem_map.1 member
  exact final other follows (SourceLine.ofText_eq_label_iff.1 isLabel)

/-- The number of instructions before a place in the source is the address of the first instruction
after that place, or the size of the program where there is none. -/
theorem fetch?_codeCount {earlier later : List (List Char)}
    (loaded : ofSource limits name source log = .ok assembly after)
    (split : Text.lines source.toList = earlier ++ later) :
    ((∀ line ∈ later, ¬ SourceLine.HoldsCode line) →
      SourceLine.codeCount (earlier.map SourceLine.ofText) = assembly.size) ∧
    ∀ skipped code rest, later = skipped ++ code :: rest →
      (∀ line ∈ skipped, ¬ SourceLine.HoldsCode line) → SourceLine.HoldsCode code →
      assembly.fetch? (SourceLine.codeCount (earlier.map SourceLine.ofText)) =
        some ⟨SourceLine.spelled code, 1 + earlier.length + skipped.length⟩ := by
  have readable : SourceLine.Readable (SourceLine.ofSource source) :=
    SourceLine.readable_ofSource source
  have said : SourceLine.ofSource source =
      earlier.map SourceLine.ofText ++ later.map SourceLine.ofText := by
    rw [SourceLine.ofSource, split, List.map_append]
  have noCode {lines : List (List Char)} (none : ∀ line ∈ lines, ¬ SourceLine.HoldsCode line) :
      ∀ line ∈ lines.map SourceLine.ofText, line.isCode = false := by
    intro line member
    obtain ⟨text, inLines, rfl⟩ := List.mem_map.1 member
    simpa using mt SourceLine.isCode_ofText_iff.1 (none text inLines)
  refine ⟨fun none => ?_, ?_⟩
  · rw [size_of_ofLines loaded readable, said, SourceLine.codeCount_append,
      SourceLine.codeCount_eq_zero (noCode none), Nat.add_zero]
  · intro skipped code rest later_eq none holds
    subst later_eq
    have isCode : SourceLine.ofText code = .code (Text.trim code) :=
      SourceLine.ofText_eq_code_iff.2 ⟨holds, rfl⟩
    obtain ⟨survey, -, rfl⟩ := survey_of_ofLines loaded
    rw [said] at readable ⊢
    have next := getElem?_filterMap_ofLine? 1 (rest.map SourceLine.ofText) (readable.of_subset
      (List.subset_append_left _ _)) (noCode none) (SourceLine.ofText?_trim holds)
    simpa [fetch?, isCode] using next

/-- The two passes agree. The program has exactly one instruction for each line that holds code, in
the order of the lines. A label that no line declares is not in the table; any other label points
at the instruction of the first line with code after the last line that declares it, and past the
program where no such line follows. -/
theorem program_and_labels_agree
    (loaded : ofSource limits name source log = .ok assembly after) :
    (assembly.program.toList =
      ((Text.lines source.toList).zipIdx 1).filterMap fun (line, number) =>
        if SourceLine.HoldsCode line then some ⟨SourceLine.spelled line, number⟩ else none) ∧
    ∀ label : String,
      ((∀ line ∈ Text.lines source.toList, ¬ SourceLine.Declares line label) →
        assembly.labels.get? label = none) ∧
      ∀ earlier line later, Text.lines source.toList = earlier ++ line :: later →
        SourceLine.Declares line label →
        (∀ other ∈ later, ¬ SourceLine.Declares other label) →
        ∃ address, assembly.labels.get? label = some address ∧
          ((∀ other ∈ later, ¬ SourceLine.HoldsCode other) → address = assembly.size) ∧
          ∀ skipped code rest, later = skipped ++ code :: rest →
            (∀ other ∈ skipped, ¬ SourceLine.HoldsCode other) → SourceLine.HoldsCode code →
            assembly.fetch? address =
              some ⟨SourceLine.spelled code, earlier.length + skipped.length + 2⟩ := by
  refine ⟨program_of_ofSource loaded, fun label => ⟨get?_of_ofSource_of_undeclared loaded, ?_⟩⟩
  intro earlier line later split declared final
  -- The declaring line is itself the first of the lines that are skipped.
  have noCode : ¬ SourceLine.HoldsCode line := fun holds => holds.2.2 declared.2.1
  obtain ⟨atEnd, atCode⟩ := fetch?_codeCount loaded split
  refine ⟨_, get?_of_ofSource_of_declared loaded split declared final, fun none => ?_, ?_⟩
  · exact atEnd (List.forall_mem_cons.2 ⟨noCode, none⟩)
  · intro skipped code rest later_eq none holds
    subst later_eq
    have found := atCode (line :: skipped) code rest rfl (List.forall_mem_cons.2 ⟨noCode, none⟩)
      holds
    rw [found, List.length_cons]
    congr 2
    omega

/-- A label that is declared twice, with a comment before the instruction that it points at. -/
theorem program_and_labels_agree_declared_twice :
    ∃ assembly after,
      ofSource {} "spin" "again:\nPUSHI 1\nagain:\n# note\nHALT\n" #[] = .ok assembly after ∧
        ∃ address, assembly.labels.get? "again" = some address ∧
          assembly.fetch? address = some ⟨.halt, 5⟩ := by
  obtain ⟨assembly, after, loaded⟩ : ∃ assembly after,
      ofSource {} "spin" "again:\nPUSHI 1\nagain:\n# note\nHALT\n" #[] = .ok assembly after :=
    ⟨_, _, rfl⟩
  obtain ⟨address, found, -, next⟩ := ((program_and_labels_agree loaded).2 "again").2
    ["again:".toList, "PUSHI 1".toList] "again:".toList ["# note".toList, "HALT".toList]
    (by decide) (by decide) (by decide)
  exact ⟨assembly, after, loaded, address, found,
    next ["# note".toList] "HALT".toList [] rfl (by decide) (by decide)⟩

end Source

end Assembly

end WashController
