import WashController.Settings

/-!
# Arguments

The arguments of the command. They are read from left to right, and the first one that asks for
help or that makes no sense decides the outcome. Switches and quantities may stand before and
after the path, each at most once; after a double dash only a path can follow.
-/

namespace WashController

/-- Options without a value. -/
inductive Switch
  | trace
  | listing
  | dumpState
  | noColor
  | verbose
  deriving DecidableEq

/-- Options with a number for a value. -/
inductive Quantity
  | maxStack
  | maxMemory
  | maxLabels
  | maxInstructions
  | maxSteps
  deriving DecidableEq

/-- Switches are named in full, in small letters. -/
def Switch.ofName? : String → Option Switch
  | "trace" => some trace
  | "listing" => some listing
  | "dump-state" => some dumpState
  | "no-color" => some noColor
  | "verbose" => some verbose
  | _ => none

/-- Quantities are named in full, in small letters. -/
def Quantity.ofName? : String → Option Quantity
  | "max-stack" => some maxStack
  | "max-memory" => some maxMemory
  | "max-labels" => some maxLabels
  | "max-instructions" => some maxInstructions
  | "max-steps" => some maxSteps
  | _ => none

/-- Why arguments are not read to their end. -/
inductive Interruption
  | help
  | misuse
  deriving DecidableEq

/-- What one argument looks like, apart from what it means. -/
inductive ArgumentForm
  /-- The double dash. -/
  | separator
  /-- A name after two dashes, with the value that follows an equals sign. -/
  | long (name : String) (value : Option String)
  /-- Letters after one dash. -/
  | short (letters : List Char)
  /-- Anything else, a lone dash and the empty text included. -/
  | plain (text : String)
  deriving DecidableEq

/-- Tells what an argument looks like. -/
def ArgumentForm.ofText (argument : String) : ArgumentForm :=
  match argument.toList with
  | ['-', '-'] => separator
  | '-' :: '-' :: text =>
    let name := String.ofList (text.takeWhile (· ≠ '='))
    match text.dropWhile (· ≠ '=') with
    | _ :: value => long name (some (String.ofList value))
    | [] => long name none
  | '-' :: letter :: letters => short (letter :: letters)
  | _ => plain argument

/-- The arguments read so far. -/
structure Arguments where
  path : Option String
  switches : List Switch
  quantities : List (Quantity × Nat)
  deriving DecidableEq

namespace Arguments

/-- Before the first argument. -/
def empty : Arguments :=
  ⟨none, [], []⟩

/-- The number that a value denotes: digits after an optional plus sign, below two to the 64. -/
def number? (text : String) : Option Nat :=
  let digits := match text.toList with
    | '+' :: digits => digits
    | digits => digits
  if digits.isEmpty || ! digits.all Char.isDigit then none
  else (some (Nat.ofDigitChars 10 digits 0)).filter fun number => number < UInt64.size

/-- There is one path, and it is not empty. -/
def place (found : Arguments) (path : String) : Except Interruption Arguments :=
  if found.path.isNone && path ≠ "" then .ok { found with path := some path }
  else .error .misuse

/-- A switch is turned on at most once. -/
def turnOn (found : Arguments) (switch : Switch) : Except Interruption Arguments :=
  if switch ∈ found.switches then .error .misuse
  else .ok { found with switches := switch :: found.switches }

/-- A quantity is given at most once, and its value is a number. -/
def give (found : Arguments) (quantity : Quantity) (value : String) :
    Except Interruption Arguments :=
  match found.quantities.lookup quantity, number? value with
  | none, some number => .ok { found with quantities := (quantity, number) :: found.quantities }
  | _, _ => .error .misuse

/-- The two options that have a letter. -/
def letter (found : Arguments) : Char → Except Interruption Arguments
  | 'v' => found.turnOn .verbose
  | 'h' => .error .help
  | _ => .error .misuse

/-- An option that takes no value from the next argument. -/
def option (found : Arguments) (name : String) (value : Option String) :
    Except Interruption Arguments :=
  match name, value, Switch.ofName? name, Quantity.ofName? name with
  | "help", none, _, _ => .error .help
  | _, none, some switch, _ => found.turnOn switch
  | _, some value, _, some quantity => found.give quantity value
  | _, _, _, _ => .error .misuse

/-- Takes further arguments into those read so far. A quantity without a value takes the next
argument for it, unless that starts with a dash. -/
def extend : List String → Arguments → Except Interruption Arguments
  | [], found => .ok found
  | argument :: rest, found =>
    match ArgumentForm.ofText argument with
    | .separator => rest.foldlM place found
    | .plain path => do extend rest (← found.place path)
    | .short letters => do extend rest (← letters.foldlM letter found)
    | .long name value =>
      match value, Quantity.ofName? name, rest with
      | none, some quantity, next :: rest =>
        if next.startsWith "-" then .error .misuse
        else do extend rest (← found.give quantity next)
      | _, _, rest => do extend rest (← found.option name value)

/-- Reads the arguments of the command. -/
def ofList (arguments : List String) : Except Interruption Arguments :=
  extend arguments empty

/-- The settings that arguments ask for, given whether diagnostics go to a terminal and what the
`NO_COLOR` variable says. -/
def settings (arguments : Arguments) (terminal : Bool) (noColor? : Option String) : Settings :=
  let on (switch : Switch) : Bool := arguments.switches.contains switch
  let given (quantity : Quantity) : Option Nat := arguments.quantities.lookup quantity
  let standard : Limits := {}
  { limits :=
      { maxStack := (given .maxStack).getD standard.maxStack
        maxMemory := (given .maxMemory).getD standard.maxMemory
        maxLabels := (given .maxLabels).getD standard.maxLabels
        maxInstructions := (given .maxInstructions).getD standard.maxInstructions
        maxSteps := given .maxSteps }
    trace := on .trace
    listing := on .listing
    dumpState := on .dumpState
    verbose := on .verbose
    color := Settings.wantsColor (on .noColor) terminal noColor? }

end Arguments

end WashController
