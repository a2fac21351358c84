import WashController.Assembly
import WashController.Text.Column

/-!
# Listings

An assembly as text: a head line, then the instructions by address, each with its source line and
after the labels that point at it. Labels that point past the last instruction stand at the end.
-/

namespace WashController.Assembly

/-- The line of a label. -/
def labelRow (name : String) : String :=
  " " ++ name ++ ":\n"

/-- The line of an instruction: its address, its text in a column of 24 characters, and where it
stands in the source. -/
def codeRow (address : Nat) (code : CodeLine) : String :=
  "  [" ++ Text.index address ++ "] " ++ Text.padRight 24 code.instruction.text ++ " ; line "
    ++ code.line.repr ++ "\n"

/-- The lines of those labels, of the ones given, whose offset is as asked for. -/
def labelRows (labels : List (String × Nat)) (offset : Nat → Bool) : List String :=
  (labels.filter fun label => offset label.2).map fun label => labelRow label.1

/-- The lines of a listing below its head. -/
def rows (assembly : Assembly) : List String :=
  let labels := assembly.labels.sorted
  (assembly.program.toList.zipIdx.flatMap fun (code, address) =>
      labelRows labels (· = address) ++ [codeRow address code])
    ++ labelRows labels (assembly.size ≤ ·)

/-- The text of a listing. -/
def listing (assembly : Assembly) : String :=
  "Assembly '" ++ assembly.name ++ "' - " ++ assembly.size.repr ++ " instructions:\n"
    ++ String.join assembly.rows

end WashController.Assembly
