import WashController.Word

/-!
# Registers and operands

Registers and operands as they stand in a program. A token that names no register leaves a
register slot empty, and makes an operand a literal: no token is refused.
-/

namespace WashController

/-- The two general registers. -/
inductive Register
  | r0
  | r1
  deriving DecidableEq

namespace Register

/-- How a register is written. -/
def name : Register → String
  | r0 => "R0"
  | r1 => "R1"

/-- The position of a register among the registers. -/
def index : Register → Nat
  | r0 => 0
  | r1 => 1

/-- Register names are written exactly so, in capitals. -/
def ofName? : String → Option Register
  | "R0" => some r0
  | "R1" => some r1
  | _ => none

@[simp]
theorem ofName?_name (register : Register) : ofName? register.name = some register := by
  cases register <;> rfl

end Register

/-- A register slot of an instruction. It is empty when its token names no register. -/
abbrev Slot := Option Register

namespace Slot

/-- An empty slot is shown as a question mark. -/
def text : Slot → String
  | some register => register.name
  | none => "?"

end Slot

/-- A value operand: the content of a register, or a literal. -/
inductive Operand
  | register (register : Register)
  | literal (value : Word)
  deriving DecidableEq

namespace Operand

/-- A register name denotes the register, any other token the literal it starts with. -/
def ofToken (token : String) : Operand :=
  match Register.ofName? token with
  | some name => register name
  | none => literal (Word.ofLiteral token)

/-- How an operand is shown. -/
def text : Operand → String
  | register name => name.name
  | literal value => value.text

end Operand

end WashController
