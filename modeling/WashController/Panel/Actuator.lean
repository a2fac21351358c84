import WashController.Word

/-!
# Actuators

The parts of the machine that a program can command.
-/

namespace WashController

/-- The actuators of a washing machine, and whatever else a program names. -/
inductive Actuator
  | motor
  | waterValve
  | waterPump
  | heater
  | other (name : String)
  deriving DecidableEq

namespace Actuator

/-- The actuator that a program means by a name. A name that means none of the known actuators
stands for itself. -/
def ofName : String → Actuator
  | "motor" => motor
  | "valvula_agua" => waterValve
  | "bomba_agua" => waterPump
  | "resistor" => heater
  | name => other name

/-- What a command brings about. Of the known actuators any value other than zero switches one on;
of the others the value itself is reported. -/
def describe (actuator : Actuator) (value : Word) : String :=
  let switched (on off : String) := if value = 0 then off else on
  match actuator with
  | motor => "Motor: " ++ switched "ON" "OFF"
  | waterValve => "Water valve: " ++ switched "OPEN" "CLOSED"
  | waterPump => "Water pump: " ++ switched "ON" "OFF"
  | heater => "Heater (resistor): " ++ switched "ON" "OFF"
  | other name => "Actuator '" ++ name ++ "': " ++ value.text

end Actuator

end WashController
