import WashController.Proofs.Addresses
import WashController.Proofs.Locality

/-!
# Layout

What of a source matters is its `skeleton`: the names that its lines declare and the first three
words of those that hold code, in order. Blank lines and comments, where a line stands, how its
words are set apart and what comes after them is layout. Assembling is a computation on the skeleton
(`outline_ofSource`), apart from the lines that errors and warnings name, and what has the same
outline runs alike (`runsAs_of_outline_eq`). Carriage returns at the ends of lines do not show even
in these lines (`map_ofText_lines_withReturns`).
-/

namespace WashController

/-! ## Skeletons -/

/-- What of a line matters: the name that it declares, or the first three words of its code. Words
that are missing are empty. -/
inductive Gist
  | label (name : String)
  | code (opcode first second : String)
  deriving DecidableEq

/-- The instruction of a line with code. -/
def Gist.instruction? : Gist → Option Instruction
  | label _ => none
  | code opcode first second => some (.decode opcode first second)

namespace SourceLine

/-- What of a line matters, if it is neither blank nor a comment. -/
def gist? (line : List Char) : Option Gist :=
  let text := Text.trim line
  if text = [] ∨ text.head? = some '#' then
    none
  else if ':' ∈ text then
    some (.label (Text.wordAt (Text.words (text.takeWhile (· ≠ ':'))) 0))
  else
    some (.code (Text.wordAt (Text.words line) 0) (Text.wordAt (Text.words line) 1)
      (Text.wordAt (Text.words line) 2))

/-- What of the lines of a source matters. -/
def skeleton (source : String) : List Gist :=
  (Text.lines source.toList).filterMap gist?

/-- The gist of a line is what is read of it. -/
theorem ofText_cases (line : List Char) :
    (ofText line = .blank ∧ gist? line = none) ∨
      (∃ name, ofText line = .label name ∧ gist? line = some (.label name)) ∨
        ∃ opcode first second, ofText line = .code (Text.trim line) ∧
          Instruction.ofText? (Text.trim line) = some (.decode opcode first second) ∧
          gist? line = some (.code opcode first second) := by
  by_cases blank : Text.trim line = [] ∨ (Text.trim line).head? = some '#'
  · refine .inl ⟨?_, if_pos blank⟩
    cases said : ofText line with
    | blank => rfl
    | label name =>
        obtain ⟨visible, colon, -⟩ := ofText_eq_label_iff.1 said
        exact absurd blank (not_or.2 ⟨List.ne_nil_of_mem colon, visible⟩)
    | code text =>
        obtain ⟨⟨nonempty, visible, -⟩, -⟩ := ofText_eq_code_iff.1 said
        exact absurd blank (not_or.2 ⟨nonempty, visible⟩)
  · obtain ⟨nonempty, visible⟩ := not_or.1 blank
    by_cases colon : ':' ∈ Text.trim line
    · refine .inr (.inl ⟨_, ofText_eq_label_iff.2 ⟨visible, colon, rfl⟩, ?_⟩)
      simp only [gist?, blank, colon, if_true, if_false]
    · have holds : HoldsCode line := ⟨nonempty, visible, colon⟩
      refine .inr (.inr ⟨_, _, _, ofText_eq_code_iff.2 ⟨holds, rfl⟩, ofText?_trim holds, ?_⟩)
      simp only [gist?, blank, colon, if_false]

end SourceLine

/-! ## Assembling a skeleton -/

/-- An error apart from the line that it names. -/
def LoadError.unplaced : LoadError → LoadError
  | tooManyLabels name _ limit => tooManyLabels name 0 limit
  | error => error

/-- What a computation comes to, apart from what it logs and from the line that an error names. -/
def outcome {α : Type} : EStateM.Result LoadError Log α → Except LoadError α
  | .ok value _ => .ok value
  | .error error _ => .error error.unplaced

theorem outcome_bind {α β : Type} {first : EStateM LoadError Log α}
    {next : α → EStateM LoadError Log β} {rest : α → Except LoadError β}
    (same : ∀ value log, outcome (next value log) = rest value) (log : Log) :
    outcome ((first >>= next) log) = outcome (first log) >>= rest := by
  change outcome (EStateM.bind first next log) = _
  unfold EStateM.bind
  cases first log with
  | ok value after => exact same value after
  | error => rfl

namespace Survey

variable {limits : Limits}

/-- Takes what matters of a line into a survey. -/
def absorb (limits : Limits) (survey : Survey) : Gist → Except LoadError Survey
  | .label name =>
    match survey.labels.declare? limits.maxLabels name survey.offset with
    | some labels => .ok { survey with labels := labels }
    | none => .error (.tooManyLabels name 0 limits.maxLabels)
  | .code _ _ _ =>
    if survey.offset < limits.maxInstructions then
      .ok { survey with offset := survey.offset + 1 }
    else
      .error (.tooManyInstructions limits.maxInstructions)

/-- A line does to a survey what its gist does. -/
theorem outcome_extend (survey : Survey) (line : List Char) (number : Nat) (log : Log) :
    outcome (extend limits survey (.ofText line, number) log) =
      (SourceLine.gist? line).elim (.ok survey) (absorb limits survey) := by
  rcases SourceLine.ofText_cases line with
    ⟨said, gist⟩ | ⟨name, said, gist⟩ | ⟨opcode, first, second, said, -, gist⟩
  · rw [said, gist, extend_blank]
    rfl
  · rw [said, gist, extend_label, Option.elim_some, absorb]
    cases survey.labels.declare? limits.maxLabels name survey.offset <;> rfl
  · rw [said, gist, extend_code, Option.elim_some, absorb]
    split <;> rfl

theorem outcome_foldlM (limits : Limits) (lines : List (List Char)) (number : Nat)
    (survey : Survey) (log : Log) :
    outcome (((lines.map SourceLine.ofText).zipIdx number).foldlM (extend limits) survey log) =
      (lines.filterMap SourceLine.gist?).foldlM (absorb limits) survey := by
  induction lines generalizing number survey log with
  | nil => rfl
  | cons line lines ih =>
      rw [List.map_cons, List.zipIdx_cons, List.foldlM_cons, outcome_bind (ih (number + 1)),
        outcome_extend, List.filterMap_cons]
      cases SourceLine.gist? line <;> rfl

end Survey

/-- The instructions of the lines of a source are those of its skeleton. -/
theorem CodeLine.map_instruction_filterMap (lines : List (List Char)) (number : Nat) :
    (((lines.map SourceLine.ofText).zipIdx number).filterMap ofLine?).map (·.instruction) =
      (lines.filterMap SourceLine.gist?).filterMap Gist.instruction? := by
  induction lines generalizing number with
  | nil => rfl
  | cons line lines ih =>
      rw [List.map_cons, List.zipIdx_cons]
      rcases SourceLine.ofText_cases line with
        ⟨said, gist⟩ | ⟨name, said, gist⟩ | ⟨opcode, first, second, said, decoded, gist⟩
      · have nothing : ofLine? (.ofText line, number) = none := by rw [said, ofLine?]; simp
        rw [List.filterMap_cons_none nothing, List.filterMap_cons_none gist, ih]
      · have nothing : ofLine? (.ofText line, number) = none := by rw [said, ofLine?]; simp
        rw [List.filterMap_cons_none nothing, List.filterMap_cons_some gist, ih]
        rfl
      · have some : ofLine? (.ofText line, number) =
            some ⟨.decode opcode first second, number⟩ := by rw [said, ofLine?, decoded]; rfl
        rw [List.filterMap_cons_some some, List.filterMap_cons_some gist, List.map_cons, ih]
        rfl

namespace Assembly

/-- What of an assembly does not depend on the layout of its source. -/
def outline (assembly : Assembly) : List Instruction × LabelTable :=
  (assembly.program.toList.map (·.instruction), assembly.labels)

/-- Assembling a source comes to what its skeleton comes to. -/
theorem outline_ofSource (limits : Limits) (name source : String) (log : Log) :
    (outcome (ofSource limits name source log)).map outline =
      ((SourceLine.skeleton source).foldlM (Survey.absorb limits) .empty).map fun survey =>
        ((SourceLine.skeleton source).filterMap Gist.instruction?, survey.labels) := by
  have surveyed := Survey.outcome_foldlM limits (Text.lines source.toList) 1 .empty log
  have instructions := CodeLine.map_instruction_filterMap (Text.lines source.toList) 1
  -- The second pass cannot fail, so the outcome is decided by the first one.
  unfold ofSource ofLines SourceLine.ofSource SourceLine.skeleton
  rw [← surveyed, ← instructions]
  change (outcome (EStateM.bind _ _ log)).map outline = _
  unfold EStateM.bind
  cases List.foldlM (Survey.extend limits) Survey.empty _ log <;> rfl

end Assembly

/-! ## Running -/

namespace Session

/-- Whether every run that ends on one program ends alike on another: in the same way, with the same
output and on the same machine. -/
def RunsAs (assembly twin : Assembly) : Prop :=
  ∀ limit machine sink log ending after,
    EndsWith assembly limit (start machine sink log) ending after →
    ∃ noted, EndsWith twin limit (start machine sink log) ending { after with log := noted }

theorem runsAs_of_outline_eq {assembly twin : Assembly}
    (same : twin.outline = assembly.outline) : RunsAs assembly twin := by
  obtain ⟨instructions, labels⟩ := Prod.ext_iff.1 same
  have fetched (address : Nat) : (twin.fetch? address).map (·.instruction) =
      (assembly.fetch? address).map (·.instruction) := by
    have here := congrArg (·[address]?) instructions
    simpa only [Assembly.outline, Assembly.fetch?, List.getElem?_map, Array.getElem?_toList]
      using here
  have size : twin.size = assembly.size := by
    have here := congrArg List.length instructions
    simpa only [Assembly.outline, Assembly.size, List.length_map, Array.length_toList] using here
  intro limit machine sink log ending after ends
  obtain ⟨fetches, trail⟩ := endsWith_iff_exists_trail.1 ends
  have sameLabels : twin.labels = assembly.labels := labels
  have shared := trail.shared (fun address _ => fetched address) fun label _ => by rw [sameLabels]
  obtain ⟨noted, again, -⟩ := trail.exists_relog size False.elim log shared
  exact ⟨noted, again⟩

end Session

/-! ## Carriage returns -/

namespace Text

/-- A text with a carriage return put before every line feed. -/
def withReturns (text : List Char) : List Char :=
  text.flatMap fun char => if char = '\n' then ['\r', '\n'] else [char]

theorem withReturns_of_no_feed {text : List Char} (noFeed : '\n' ∉ text) :
    withReturns text = text := by
  induction text with
  | nil => rfl
  | cons char text ih =>
      have visible : char ≠ '\n' := (List.ne_of_not_mem_cons noFeed).symm
      rw [withReturns, List.flatMap_cons, if_neg visible, ← withReturns,
        ih (List.not_mem_of_not_mem_cons noFeed)]
      rfl

theorem withReturns_append_feed (before after : List Char) :
    withReturns (before ++ '\n' :: after) =
      withReturns before ++ ['\r'] ++ '\n' :: withReturns after := by
  simp [withReturns]

/-- A blank at the end does not matter. -/
theorem trim_append_blank (text : List Char) {blank : Char} (isBlank : isBlank blank = true) :
    trim (text ++ [blank]) = trim text := by
  unfold trim
  rw [List.dropWhile_append]
  split
  next empty =>
    rw [List.isEmpty_iff.1 empty, List.dropWhile_cons_of_pos isBlank]
    rfl
  next => rw [List.reverse_append, List.reverse_singleton, List.singleton_append,
    List.dropWhile_cons_of_pos isBlank]

theorem trim_dropReturn (line : List Char) : trim (dropReturn line) = trim line := by
  unfold dropReturn
  split
  next returned =>
    obtain ⟨rest, rfl⟩ := List.getLast?_eq_some_iff.1 returned
    rw [List.dropLast_concat, trim_append_blank rest (by decide)]
  next => rfl

end Text

namespace SourceLine

theorem ofText_congr {line other : List Char} (same : Text.trim line = Text.trim other) :
    ofText line = ofText other := by
  unfold ofText
  rw [same]

/-- Carriage returns before line feeds do not show in what the lines say. -/
theorem map_ofText_lines_withReturns (text : List Char) :
    (Text.lines (Text.withReturns text)).map ofText = (Text.lines text).map ofText := by
  by_cases feed : '\n' ∈ text
  · obtain ⟨before, after, rfl, first⟩ := List.eq_append_cons_of_mem feed
    have rest := map_ofText_lines_withReturns after
    have returned : '\n' ∉ before ++ ['\r'] := by simpa using first
    have same : ofText (Text.dropReturn (before ++ ['\r'])) = ofText (Text.dropReturn before) := by
      refine ofText_congr ?_
      rw [Text.trim_dropReturn, Text.trim_dropReturn, Text.trim_append_blank before (by decide)]
    rw [Text.withReturns_append_feed, Text.withReturns_of_no_feed first, Text.lines_append_feed,
      Text.lines_append_feed, List.splitOn_eq_singleton returned, List.splitOn_eq_singleton first,
      List.map_append, List.map_append, rest]
    simp [same]
  · rw [Text.withReturns_of_no_feed feed]
termination_by text.length

end SourceLine

/-! ## Sources -/

namespace Assembly

/-- What assembling two sources that differ in their layout comes to: the same error, apart from the
line that it names, or programs with the same instructions and the same labels, so that every run
that ends on one of them ends alike on the other. -/
inductive SameOutline :
    EStateM.Result LoadError Log Assembly → EStateM.Result LoadError Log Assembly → Prop
  | ok {assembly twin : Assembly} {log twinLog : Log} :
    twin.program.toList.map (·.instruction) = assembly.program.toList.map (·.instruction) →
    twin.labels = assembly.labels →
    Session.RunsAs assembly twin → Session.RunsAs twin assembly →
    SameOutline (.ok assembly log) (.ok twin twinLog)
  | error {error twin : LoadError} {log twinLog : Log} :
    twin.unplaced = error.unplaced → SameOutline (.error error log) (.error twin twinLog)

theorem sameOutline_of_outcome_eq {result twinResult : EStateM.Result LoadError Log Assembly}
    (same : (outcome twinResult).map outline = (outcome result).map outline) :
    SameOutline result twinResult := by
  cases result with
  | ok assembly log =>
      cases twinResult with
      | ok twin twinLog =>
          have outlines : twin.outline = assembly.outline := Except.ok.inj same
          obtain ⟨instructions, labels⟩ := Prod.ext_iff.1 outlines
          exact .ok instructions labels (Session.runsAs_of_outline_eq outlines)
            (Session.runsAs_of_outline_eq outlines.symm)
      | error => cases same
  | error error log =>
      cases twinResult with
      | ok => cases same
      | error twin twinLog => exact .error (Except.error.inj same)

/-- Layout does not matter. Two sources with the same skeleton fail to assemble with the same error,
apart from the line that it names, or both assemble, with the same instructions and the same labels,
and then everything runs alike. Where the layouts differ only in carriage returns before the line
feeds, even the lines and the warnings are the same. -/
theorem layout_does_not_matter :
    (∀ source twin, SourceLine.skeleton twin = SourceLine.skeleton source →
      ∀ limits name twinName log twinLog,
        SameOutline (ofSource limits name source log) (ofSource limits twinName twin twinLog)) ∧
    ∀ limits name source log,
      ofSource limits name (.ofList (Text.withReturns source.toList)) log =
        ofSource limits name source log := by
  refine ⟨fun source twin same limits name twinName log twinLog => ?_,
    fun limits name source log => ?_⟩
  · apply sameOutline_of_outcome_eq
    rw [outline_ofSource limits twinName twin twinLog, same,
      ← outline_ofSource limits name source log]
  · simp only [ofSource, SourceLine.ofSource, String.toList_ofList,
      SourceLine.map_ofText_lines_withReturns]

/-- A loop, and the same loop with a comment, an empty line, other blanks and further words. -/
theorem layout_does_not_matter_loop :
    SourceLine.skeleton "# a loop\n\n  again : here\n\tPUSHI  1 2 3\nJMP\u00a0again" =
        SourceLine.skeleton "again:\nPUSHI 1 2\nJMP again\n" ∧
      SameOutline (ofSource {} "plain" "again:\nPUSHI 1 2\nJMP again\n" #[])
        (ofSource {} "wide" "# a loop\n\n  again : here\n\tPUSHI  1 2 3\nJMP\u00a0again" #[]) := by
  have same : SourceLine.skeleton "# a loop\n\n  again : here\n\tPUSHI  1 2 3\nJMP\u00a0again" =
      SourceLine.skeleton "again:\nPUSHI 1 2\nJMP again\n" := by decide
  exact ⟨same, layout_does_not_matter.1 _ _ same {} "plain" "wide" #[] #[]⟩

end Assembly

end WashController
