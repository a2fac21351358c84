import WashController.Assembly
import WashController.Diagnostic
import WashController.Settings
import WashController.SourceLine

/-!
# Assembling

Source lines become an assembly in two passes. The first pass makes a `Survey`: it counts the
instruction lines and lets each label point at the instruction that comes next. It also checks the
limits, and the first line that goes past one ends the work. The second pass decodes the
instructions; it knows nothing of the count, and that the two agree is a theorem and no part of the
definitions. Warnings go to a log, which keeps them also when assembling fails.
-/

namespace WashController

/-- What the lines read so far amount to. -/
structure Survey where
  /-- The number of instruction lines, which is the address of the next one. -/
  offset : Nat
  labels : LabelTable

namespace Survey

/-- The survey before the first line. -/
def empty : Survey :=
  ⟨0, .empty⟩

/-- Takes one more line, given with its number, into a survey. A label without a name is warned
about before the table is asked for room. -/
def extend (limits : Limits) (survey : Survey) : SourceLine × Nat → EStateM LoadError Log Survey
  | (.blank, _) => return survey
  | (.label name, line) => do
    if name = "" then
      modify fun log => log.push (.unnamedLabel line)
    match survey.labels.declare? limits.maxLabels name survey.offset with
    | some labels => return { survey with labels := labels }
    | none => throw (.tooManyLabels name line limits.maxLabels)
  | (.code _, _) => do
    let offset := survey.offset + 1
    if offset > limits.maxInstructions then
      throw (.tooManyInstructions limits.maxInstructions)
    return { survey with offset := offset }

end Survey

/-- The instruction of a line that is given with its number, if there is one. -/
def CodeLine.ofLine? : SourceLine × Nat → Option CodeLine
  | (.code text, line) => (Instruction.ofText? text).map fun instruction => ⟨instruction, line⟩
  | _ => none

namespace Assembly

/-- Assembles the lines of a source. They are numbered from one. -/
def ofLines (limits : Limits) (name : String) (lines : List SourceLine) :
    EStateM LoadError Log Assembly := do
  let numbered := lines.zipIdx 1
  let survey ← numbered.foldlM (Survey.extend limits) .empty
  return ⟨name, (numbered.filterMap CodeLine.ofLine?).toArray, survey.labels⟩

/-- Assembles a source text. -/
def ofSource (limits : Limits) (name source : String) : EStateM LoadError Log Assembly :=
  ofLines limits name (SourceLine.ofSource source)

/-- Assembles what is read at a path. The path names the assembly. -/
def ofFile (limits : Limits) (path : String) (content : Except ReadError String) :
    EStateM LoadError Log Assembly :=
  match content with
  | .ok source => ofSource limits path source
  | .error reason => throw (.unreadable path reason)

end Assembly

end WashController
