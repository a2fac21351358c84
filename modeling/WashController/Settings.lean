/-!
# Settings

The limits that a program has to keep to, and what else is chosen for a run before it starts.
-/

namespace WashController

/-- Fixed ceilings. Going past one is an error; nothing ever grows beyond its ceiling. -/
structure Limits where
  maxStack : Nat := 256
  maxMemory : Nat := 1024
  maxLabels : Nat := 128
  maxInstructions : Nat := 1024
  /-- How many instructions a run may execute. A run without a limit goes on until it ends. -/
  maxSteps : Option Nat := none
  deriving DecidableEq

/-- What is chosen for a run. -/
structure Settings where
  limits : Limits := {}
  /-- Report every instruction that is executed. -/
  trace : Bool := false
  /-- Print the assembled program before it runs. -/
  listing : Bool := false
  /-- Print memory, stack and sensors after the summary. -/
  dumpState : Bool := false
  /-- Report how much was loaded and how the run stopped. -/
  verbose : Bool := false
  /-- Colour the diagnostics. -/
  color : Bool := false
  deriving DecidableEq

/-- Diagnostics are coloured only on a terminal, and neither against the flag nor against a
`NO_COLOR` variable that is set to something. -/
def Settings.wantsColor (noColorFlag terminal : Bool) (noColor? : Option String) : Bool :=
  terminal && !noColorFlag && noColor?.all (· = "")

end WashController
