import WashController.Machine.Memory
import WashController.Machine.Registers
import WashController.Machine.Sensors
import WashController.Machine.Stack
import WashController.Settings

/-!
# The machine

The state that a program works on.
-/

namespace WashController

/-- What a program works on, and how far it has come. -/
structure Machine (α : Type) where
  registers : Registers α
  memory : Memory α
  stack : Stack α
  sensors : Sensors
  /-- The address of the instruction that comes next. -/
  counter : Nat
  /-- Whether a run has come to a halt here, by itself or by a fault. -/
  halted : Bool
  /-- How long the program has waited so far. -/
  ticks : α
  deriving DecidableEq

namespace Machine

variable {α : Type} [Arithmetic α]

/-- A machine that has just been switched on. -/
def initial (limits : Limits) : Machine α where
  registers := ⟨Arithmetic.zero, Arithmetic.zero⟩
  memory := .empty limits.maxMemory
  stack := .empty limits.maxStack
  sensors := .washer
  counter := 0
  halted := false
  ticks := Arithmetic.zero

end Machine

end WashController
