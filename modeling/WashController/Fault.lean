/-!
# Faults

What can go wrong while a program runs. A fault names its cause; `Fault.message` is the one place
that puts causes into words.
-/

namespace WashController

/-- The cause of a fault. -/
inductive Fault
  | unknownOpcode (opcode : String)
  | undefinedVariable (name : String)
  | undefinedLabel (name : String)
  | undefinedSensor (name : String)
  | stackUnderflow
  | stackOverflow (capacity : Nat)
  | divisionByZero
  | memoryExhausted (capacity : Nat)
  | stepLimit (limit : Nat)
  deriving DecidableEq

namespace Fault

/-- A fault in words. -/
def message : Fault → String
  | unknownOpcode opcode => "unknown instruction '" ++ opcode ++ "'"
  | undefinedVariable name => "variable '" ++ name ++ "' not found"
  | undefinedLabel name => "label '" ++ name ++ "' not found"
  | undefinedSensor name => "sensor '" ++ name ++ "' not found"
  | stackUnderflow => "stack is empty"
  | stackOverflow capacity => "stack overflow (capacity " ++ capacity.repr ++ ")"
  | divisionByZero => "division by zero"
  | memoryExhausted capacity => "memory exhausted (capacity " ++ capacity.repr ++ ")"
  | stepLimit limit => "step limit of " ++ limit.repr ++ " reached"

end Fault

end WashController
