import WashController.Panel.Actuator
import WashController.Step

/-!
# Notices

What the panel shows while a program runs: one notice for each event that an operator can see.
-/

namespace WashController

/-- Something that an operator is told. -/
inductive Notice
  | emitted (actuator : String) (value : Word)
  | waited (amount total : Word)
  | halted
  deriving DecidableEq

/-- The text of a notice. A command takes two lines, the others one. -/
def Notice.text : Notice → String
  | emitted actuator value =>
    "[EMIT] " ++ actuator ++ " = " ++ value.text ++ "\n  -> "
      ++ (Actuator.ofName actuator).describe value ++ "\n"
  | waited amount total =>
    "[WAIT] waiting " ++ amount.text ++ " ticks (total: " ++ total.text ++ ")\n"
  | halted => "[HALT] program finished\n"

/-- The notice that an event gives rise to, if it shows at all. -/
def Event.notice? : Event Word → Option Notice
  | .emitted actuator value => some (.emitted actuator value)
  | .waited amount total => some (.waited amount total)
  | .halted => some .halted
  | .advanced => none
  | .jumped _ => none
  | .ended => none

end WashController
