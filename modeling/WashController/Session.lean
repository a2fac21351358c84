import WashController.Assembly.Listing
import WashController.Diagnostic
import WashController.Panel.Notice
import WashController.Panel.Report
import WashController.Sink

/-!
# Sessions

A session runs a program on a machine: it shows the notices of the program on the panel, logs what
happens, and keeps count of the instructions. One `turn` executes one instruction; `advance` takes
as many turns as it is allowed, since a program need not come to an end by itself. `conduct` puts
the reports of the panel around the run.
-/

namespace WashController

/-- How a run ends. -/
inductive Ending
  /-- The program stopped itself, or ran past its last instruction. -/
  | normal
  | fault (fault : Fault)
  /-- The output of the program could not be written. -/
  | sinkFull
  deriving DecidableEq

/-- A run in progress: the machine, what is written and logged, and the count of instructions. -/
structure Session where
  machine : Machine Word
  sink : Sink
  log : Log
  /-- The number of instructions executed so far. -/
  executed : Nat

/-- A part of what happens in a session. It leaves the run going, or it brings about the ending. -/
abbrev Activity :=
  EStateM Ending Session Unit

/-- What happens after a run that has ended, unless its output failed. The run keeps its ending,
unless output fails now. A run that has not ended yet stays as it is. -/
def Activity.followedBy (run epilogue : Activity) : Activity := fun session =>
  match run session with
  | .ok () after => .ok () after
  | .error .sinkFull after => .error .sinkFull after
  | .error ending after =>
    match epilogue after with
    | .ok () last => .error ending last
    | .error failure last => .error failure last

namespace Session

/-- A session that has not executed anything yet. -/
def start (machine : Machine Word) (sink : Sink) (log : Log) : Session :=
  ⟨machine, sink, log, 0⟩

/-- Logs an event. -/
def note (session : Session) (diagnostic : Diagnostic) : Session :=
  { session with log := session.log.push diagnostic }

/-! ## Output -/

/-- The session after a text is written to the panel, as far as it fits. -/
def put (session : Session) (text : String) : Session :=
  { session with sink := session.sink.write text }

/-- Writes a text to the panel. What fits is written also when the text as a whole does not. -/
def print (text : String) : Activity := fun session =>
  if session.sink.accepts text then .ok () (session.put text)
  else .error .sinkFull (session.put text)

/-- Writes the summary of the machine as it is. -/
def printSummary : Activity := fun session =>
  print (Panel.summary session.machine) session

/-- Writes the dump of the machine as it is. -/
def printDump : Activity := fun session =>
  print (Panel.dump session.machine) session

/-! ## Turns -/

/-- Ends the run with a fault, which is logged with the line of the instruction that is under the
program counter. -/
def fail (assembly : Assembly) (fault : Fault) : Activity := fun session =>
  let line := (assembly.fetch? session.machine.counter).map (·.line)
  let noted := session.note (.faulted line fault)
  .error (.fault fault) { noted with machine := { session.machine with halted := true } }

/-- The step limit, once that many instructions are executed and there is still one to execute.
A program that has run past its last instruction is within any limit. -/
def limitReached? (session : Session) (assembly : Assembly) (limit : Option Nat) : Option Nat :=
  limit.filter fun most =>
    most ≤ session.executed && session.machine.counter < assembly.size

/-- Logs the instruction that is about to be executed. -/
def announce (session : Session) (assembly : Assembly) : Session :=
  match assembly.fetch? session.machine.counter with
  | some code => session.note (.fetched session.machine.counter code)
  | none => session

/-- Counts an instruction after its event, or ends the run if there is nothing more to execute. -/
def proceed (event : Event Word) : Activity := fun session =>
  match event with
  | .halted | .ended => .error .normal session
  | _ => .ok () { session with executed := session.executed + 1 }

/-- Shows what a step amounted to, and proceeds from there. -/
def present (event : Event Word) : Activity := do
  if let some notice := event.notice? then
    print notice.text
  proceed event

/-- Executes the next instruction, unless the step limit is reached. -/
def turn (assembly : Assembly) (limit : Option Nat) : Activity := fun session =>
  match session.limitReached? assembly limit with
  | some most => fail assembly (.stepLimit most) session
  | none =>
    let announced := session.announce assembly
    match step assembly announced.machine with
    | .ok event after => present event { announced with machine := after }
    | .error fault after => fail assembly fault { announced with machine := after }

/-- Runs the program for at most so many turns. -/
def advance (assembly : Assembly) (limit : Option Nat) (turns : Nat) : Activity := fun session =>
  match turns with
  | 0 => .ok () session
  | more + 1 =>
    match turn assembly limit session with
    | .ok () after => advance assembly limit more after
    | .error ending after => .error ending after

/-! ## Whole runs -/

/-- What is shown before the program starts: its listing, with an empty line after it, if asked
for, and the banner. -/
def opening (settings : Settings) (assembly : Assembly) : Activity := do
  if settings.listing then
    print (assembly.listing ++ "\n")
  print Panel.banner

/-- What is shown after the program has stopped: the summary and, if asked for, the dump. -/
def closing (settings : Settings) : Activity := do
  printSummary
  if settings.dumpState then
    printDump

/-- A whole run, with the program allowed at most so many turns. -/
def conduct (settings : Settings) (assembly : Assembly) (turns : Nat) : Activity := do
  opening settings assembly
  Activity.followedBy (advance assembly settings.limits.maxSteps turns) (closing settings)

end Session

end WashController
