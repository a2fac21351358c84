import WashController.Text.Blank
import WashController.Text.Line

/-!
# Source lines

What one line of a source says. A line is blank, declares a label or holds an instruction; blanks
at either end never matter. A number sign makes a comment only as the first character that is not
blank, and a colon anywhere else makes a label line.
-/

namespace WashController

/-- What a line says. The text of an instruction line is trimmed. -/
inductive SourceLine
  | blank
  | label (name : String)
  | code (text : List Char)
  deriving DecidableEq

namespace SourceLine

/-- Reads a line. The name of a label is the first word before the first colon, and it is empty
when there is no word before it. -/
def ofText (line : List Char) : SourceLine :=
  match Text.trim line with
  | [] => blank
  | '#' :: _ => blank
  | text =>
    if ':' ∈ text then
      label (Text.wordAt (Text.words (text.takeWhile (· ≠ ':'))) 0)
    else
      code text

/-- Reads the lines of a source, in order. -/
def ofSource (source : String) : List SourceLine :=
  (Text.lines source.toList).map ofText

/-- Whether a line holds an instruction. -/
def isCode : SourceLine → Bool
  | code _ => true
  | _ => false

end SourceLine

end WashController
