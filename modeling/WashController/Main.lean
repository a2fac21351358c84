import WashController.CommandLine
import WashController.FileTree

/-!
# The command as a program

The outer layer: it fetches what the command needs to know from the system and hands on what the
command has to say. Output is handed on as the run goes, since a program may run for ever.
-/

open WashController

namespace WashController.Main

/-- What the command takes, one line each. -/
def help : List String :=
  ["Runs a washing-machine controller assembly program", "", "Usage: run [OPTIONS] [PATH]", "",
    "Arguments:",
    "  [PATH]  Assembly source file", "",
    "Options:",
    "      --trace                 Log every executed instruction to stderr",
    "      --listing               Print the assembled program before running",
    "      --dump-state            Print memory, stack and sensors after the final summary",
    "  -v, --verbose               Report load statistics on stderr",
    "      --no-color              Disable colored diagnostics",
    "      --max-stack <N>         [default: 256]",
    "      --max-memory <N>        [default: 1024]",
    "      --max-labels <N>        [default: 128]",
    "      --max-instructions <N>  [default: 1024]",
    "      --max-steps <N>         Stop after this many executed instructions",
    "  -h, --help                  Print help"]

/-- Why the system refuses to read a file. Some of its calls give the error number negated. -/
def reasonOf (failure : IO.Error) : ReadError :=
  match failure with
  | .noFileOrDirectory .. => .notFound
  | .inappropriateType _ 21 _ => .isDirectory
  | .inappropriateType .. => .notDirectory
  | .invalidArgument _ code _ =>
    if code = 36 ∨ code = -36 then .nameTooLong else .other failure.toString
  | _ => .other failure.toString

/-- Why the system refuses to take output. -/
def refusalOf : IO.Error → String
  | .resourceExhausted _ 28 _ => CommandLine.deviceFull
  | other => other.toString

/-- Reads a source through the system. -/
def readSource (path : String) : IO (Except ReadError String) := do
  try
    return decodeSource (← IO.FS.readBinFile path)
  catch failure =>
    return .error (reasonOf failure)

/-- Hands on what a session has to say so far, and empties it. -/
def handOn (settings : Settings) (session : Session) : IO Session := do
  let stderr ← IO.getStderr
  stderr.putStr (session.log.render (CommandLine.minimumLevel settings) settings.color)
  let stdout ← IO.getStdout
  stdout.write session.sink.written
  stdout.flush
  return { session with sink := .empty none, log := #[] }

/-- Takes a part of a session, and goes on with the next one as long as the run has not ended. -/
partial def follow (settings : Settings) (assembly : Assembly) (activity : Activity)
    (session : Session) : IO Ending := do
  match activity session with
  | .ok _ session =>
    let turns := Session.advance assembly settings.limits.maxSteps 256
    follow settings assembly turns (← handOn settings session)
  | .error ending session =>
    let last : Activity := Activity.followedBy (fun session => .error ending session)
      (Session.closing settings)
    match last session with
    | .ok _ session | .error _ session => discard (handOn settings session)
    return ending

/-- Logs one more thing. -/
def say (settings : Settings) (diagnostics : Log) : IO Unit := do
  (← IO.getStderr).putStr
    (diagnostics.render (CommandLine.minimumLevel settings) settings.color)

/-- Loads and runs the program at a path. -/
def run (settings : Settings) (path : String) : IO UInt32 := do
  match CommandLine.load settings path (← readSource path) #[] with
  | .error _ log =>
    say settings log
    return 1
  | .ok assembly log =>
    let session := Session.start (.initial settings.limits) (.empty none) log
    let (exit, diagnostic?) ←
      try
        let ending ← follow settings assembly (Session.opening settings assembly) session
        pure (CommandLine.verdict CommandLine.deviceFull ending)
      catch failure =>
        pure (1, some (.outputFailed (refusalOf failure)))
    say settings diagnostic?.toArray
    return exit.toUInt32

end WashController.Main

open WashController.Main in
def main (arguments : List String) : IO UInt32 := do
  match Arguments.ofList arguments with
  | .error .help =>
    help.forM fun line => IO.println line
    return 0
  | .error .misuse =>
    IO.eprint CommandLine.usage
    return 1
  | .ok arguments =>
    match arguments.path with
    | none =>
      IO.eprint CommandLine.usage
      return 1
    | some path =>
      let terminal ← (← IO.getStderr).isTty
      let settings := arguments.settings terminal (← IO.getEnv "NO_COLOR")
      run settings path
