import WashController.Assembly.Survey
import WashController.CommandLine.Arguments
import WashController.Session

/-!
# The command

What the command does with its arguments. It loads the program at a path, runs it, and reports on
two channels: the panel on one, diagnostics on the other. A fault of the program is no failure of
the command; a program that cannot be loaded and output that cannot be written are.
-/

namespace WashController

/-- What is left when the command is done. -/
structure Report where
  exit : Nat
  output : ByteArray
  diagnostics : String

/-- How the command answers. -/
inductive Response
  | help
  | misuse
  | report (report : Report)

namespace CommandLine

/-- Said to those who name no program. -/
def usage : String :=
  "usage: run <program.asm>\n"

/-- The least level that is reported. -/
def minimumLevel (settings : Settings) : Level :=
  if settings.trace then .trace else if settings.verbose then .info else .warn

/-- Assembles what was read at a path, and logs how much that is or why it failed. -/
def load (settings : Settings) (path : String) (content : Except ReadError String) :
    EStateM LoadError Log Assembly := fun log =>
  match Assembly.ofFile settings.limits path content log with
  | .ok assembly log =>
    .ok assembly (log.push (.loaded assembly.name assembly.size assembly.labels.size))
  | .error error log => .error error (log.push (.loadFailed error))

/-- The exit code after a run, and what is logged about its ending. Only output that cannot be
written makes the command fail. -/
def verdict (full : String) : Ending → Nat × Option Diagnostic
  | .normal => (0, none)
  | .fault fault => (0, some (.stopped fault))
  | .sinkFull => (1, some (.outputFailed full))

/-- Why a device with no room refuses output. -/
def deviceFull : String :=
  "No space left on device (os error 28)"

/-- What the command leaves behind after a run that has ended. -/
def conclude (settings : Settings) (ending : Ending) (session : Session) : Report :=
  let (exit, diagnostic?) := verdict deviceFull ending
  let log : Log := match diagnostic? with
    | some diagnostic => session.log.push diagnostic
    | none => session.log
  ⟨exit, session.sink.written, log.render (minimumLevel settings) settings.color⟩

/-- Loads and runs a program that is allowed at most so many turns. There is no report if the
program needs more turns than that. -/
def run (settings : Settings) (path : String) (content : Except ReadError String) (sink : Sink)
    (turns : Nat) : Option Report :=
  match load settings path content #[] with
  | .error _ log => some ⟨1, sink.written, log.render (minimumLevel settings) settings.color⟩
  | .ok assembly log =>
    let session := Session.start (.initial settings.limits) sink log
    match Session.conduct settings assembly turns session with
    | .ok _ _ => none
    | .error ending session => some (conclude settings ending session)

/-- Answers to arguments, for a program that is allowed at most so many turns. Neither channel is a
terminal. -/
def respond (arguments : List String) (read : String → Except ReadError String) (sink : Sink)
    (turns : Nat) : Option Response :=
  match Arguments.ofList arguments with
  | .error .help => some .help
  | .error .misuse => some .misuse
  | .ok arguments =>
    match arguments.path with
    | none => some (.report ⟨1, sink.written, usage⟩)
    | some path =>
      (run (arguments.settings false none) path (read path) sink turns).map .report

end CommandLine

end WashController
