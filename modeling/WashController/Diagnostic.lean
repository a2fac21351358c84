import WashController.Fault
import WashController.Instruction
import WashController.LoadError
import WashController.Text.Column

/-!
# Diagnostics

What is reported beside the output of a program. A `Diagnostic` is an event worth reporting, an
`Entry` is how it reads: a level and a message. Events are collected whatever their level; which
of them are shown, and whether in colour, is decided when the log is rendered.
-/

namespace WashController

/-- How much a report matters, from least to most. -/
inductive Level
  | trace
  | info
  | warn
  | error
  deriving DecidableEq

namespace Level

/-- How a level is written. -/
def name : Level → String
  | trace => "trace"
  | info => "info"
  | warn => "warn"
  | error => "error"

/-- The place of a level in the order of levels. -/
def rank : Level → Nat
  | trace => 0
  | info => 1
  | warn => 2
  | error => 3

/-- Whether reports of a level are shown under a minimum level. -/
def shownUnder (level minimum : Level) : Bool :=
  minimum.rank ≤ level.rank

/-- The terminal sequences before a level's name: reset, then dimmed cyan for a trace, bold yellow
for a warning, bold red for an error. -/
def paint : Level → String
  | trace => "\x1b[0m\x1b[2m\x1b[36m"
  | info => "\x1b[0m"
  | warn => "\x1b[0m\x1b[1m\x1b[33m"
  | error => "\x1b[0m\x1b[1m\x1b[31m"

end Level

/-- One line of a log. -/
structure Entry where
  level : Level
  message : String
  deriving DecidableEq

namespace Entry

/-- A line of a log. Only the level is coloured. -/
def text (color : Bool) (entry : Entry) : String :=
  let tag := entry.level.name ++ ":"
  (if color then entry.level.paint ++ tag ++ "\x1b[0m" else tag) ++ " " ++ entry.message ++ "\n"

/-- The entries that matter enough, one to a line. -/
def render (minimum : Level) (color : Bool) (entries : List Entry) : String :=
  String.join ((entries.filter fun entry => entry.level.shownUnder minimum).map (text color))

end Entry

/-- Events worth reporting. -/
inductive Diagnostic
  /-- A label line declares the empty name. -/
  | unnamedLabel (line : Nat)
  /-- An instruction is about to be executed. -/
  | fetched (counter : Nat) (code : CodeLine)
  /-- A run ends in a fault, at a line unless the program counter is past the program. -/
  | faulted (line : Option Nat) (fault : Fault)
  /-- A program is ready to run. -/
  | loaded (name : String) (instructions labels : Nat)
  /-- There is no program to run. -/
  | loadFailed (error : LoadError)
  /-- A fault has ended the run of a program. -/
  | stopped (fault : Fault)
  /-- The output of a program could not be written. -/
  | outputFailed (reason : String)
  deriving DecidableEq

namespace Diagnostic

/-- How much an event matters. -/
def level : Diagnostic → Level
  | unnamedLabel _ => .warn
  | fetched _ _ => .trace
  | faulted _ _ => .error
  | loaded _ _ _ => .info
  | loadFailed _ => .error
  | stopped _ => .info
  | outputFailed _ => .error

/-- An event in words. -/
def message : Diagnostic → String
  | unnamedLabel line => "line " ++ line.repr ++ ": label declaration without a name"
  | fetched counter code =>
    "[PC=" ++ Text.index counter ++ "] line " ++ Text.padLeft 3 ' ' code.line.repr ++ ": "
      ++ code.instruction.text
  | faulted (some line) fault => "line " ++ line.repr ++ ": " ++ fault.message
  | faulted none fault => fault.message
  | loaded name instructions labels =>
    name ++ ": " ++ instructions.repr ++ " instructions, " ++ labels.repr ++ " labels"
  | loadFailed error => error.message
  | stopped fault => "run stopped by fault: " ++ fault.message
  | outputFailed reason => "writing output: " ++ reason

/-- How an event reads in a log. -/
def entry (diagnostic : Diagnostic) : Entry :=
  ⟨diagnostic.level, diagnostic.message⟩

end Diagnostic

/-- The diagnostics so far, oldest first. -/
abbrev Log := Array Diagnostic

/-- The text of a log: its entries of at least the minimum level, one to a line. -/
def Log.render (minimum : Level) (color : Bool) (log : Log) : String :=
  Entry.render minimum color (log.toList.map Diagnostic.entry)

end WashController
