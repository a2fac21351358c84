import WashController.Machine
import WashController.Text.Column

/-!
# Panel reports

What the panel shows around a run: a banner before it, a summary of the machine after it, and on
request a dump of the whole state.
-/

namespace WashController.Panel

/-- Shown before a run. -/
def banner : String :=
  "=== Running washer VM ===\n\n"

/-- A name with its value, as memory cells and sensors are shown. -/
def binding (name : String) (value : Word) : String :=
  "  " ++ name ++ " = " ++ value.text ++ "\n"

/-- A stack slot by its distance from the top. -/
def slot (distance : Nat) (value : Word) : String :=
  "  [" ++ Text.index distance ++ "] " ++ value.text ++ "\n"

/-- Shown after a run. -/
def summary (machine : Machine Word) : String :=
  "\n=== Final state ===\nR0 = " ++ machine.registers.r0.text ++ "\nR1 = "
    ++ machine.registers.r1.text ++ "\nTotal ticks: " ++ machine.ticks.text
    ++ "\nMemory allocated: " ++ machine.memory.size.repr ++ " variables\n"

/-- The whole state: memory by name, the stack from the top down, and the sensors. -/
def dump (machine : Machine Word) : String :=
  "Memory:\n"
    ++ String.join (machine.memory.toList.map fun (name, value) => binding name value)
    ++ "Stack:\n"
    ++ String.join (machine.stack.values.zipIdx.map fun (value, distance) => slot distance value)
    ++ "Sensors:\n"
    ++ String.join (machine.sensors.readings.map fun (name, value) => binding name value)

end WashController.Panel
