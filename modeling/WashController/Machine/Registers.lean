import WashController.Arithmetic
import WashController.Instruction.Operand

/-!
# Registers

The content of the two general registers.
-/

namespace WashController

/-- The content of each register. -/
structure Registers (α : Type) where
  r0 : α
  r1 : α
  deriving DecidableEq

namespace Registers

variable {α : Type}

/-- The content of a register. -/
def get (registers : Registers α) : Register → α
  | .r0 => registers.r0
  | .r1 => registers.r1

/-- Gives a register a value. -/
def set (registers : Registers α) (target : Register) (value : α) : Registers α :=
  match target with
  | .r0 => { registers with r0 := value }
  | .r1 => { registers with r1 := value }

/-- Setting a register changes that register, and not the other one. -/
theorem get_set (registers : Registers α) (target source : Register) (value : α) :
    (registers.set target value).get source =
      if source = target then value else registers.get source := by
  cases target <;> cases source <;> rfl

end Registers

end WashController
