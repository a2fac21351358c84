import WashController.Word

/-!
# Sensors

What the sensors of the machine read. Programs can read them and nothing more.
-/

namespace WashController

/-- The readings, in the order in which they are shown. -/
structure Sensors where
  readings : List (String × Word)
  deriving DecidableEq

namespace Sensors

/-- The sensors of a washing machine, as they read when it is switched on. -/
def washer : Sensors :=
  ⟨[("water_level", 50), ("temperature", 20), ("door_closed", 1), ("weight", 5)]⟩

/-- The reading of a sensor, if there is one of this name. -/
def read? (sensors : Sensors) (name : String) : Option Word :=
  sensors.readings.lookup name

end Sensors

end WashController
