import WashController.Arithmetic

/-!
# Operations

What the arithmetic, comparison and jump instructions compute, apart from where they find and
leave their values. Comparisons are tests on the sign of a value.
-/

namespace WashController

/-- The arithmetic operations on the two registers. -/
inductive BinaryOp
  | add
  | sub
  | mul
  | div
  deriving DecidableEq

namespace BinaryOp

/-- The opcode of an operation. -/
def mnemonic : BinaryOp → String
  | add => "ADD"
  | sub => "SUB"
  | mul => "MUL"
  | div => "DIV"

variable {α : Type} [Arithmetic α]

/-- The result of an operation. Only division by zero has none. -/
def result? : BinaryOp → α → α → Option α
  | add, left, right => some (Arithmetic.add left right)
  | sub, left, right => some (Arithmetic.sub left right)
  | mul, left, right => some (Arithmetic.mul left right)
  | div, left, right =>
    if Arithmetic.truth right then some (Arithmetic.quotient left right) else none

end BinaryOp

/-- A relation of a value to zero. -/
inductive Relation
  | gt
  | lt
  | eq
  | ne
  | ge
  | le
  deriving DecidableEq

namespace Relation

/-- The opcode of the instruction that tests a relation. -/
def mnemonic : Relation → String
  | gt => "SETGT"
  | lt => "SETLT"
  | eq => "SETEQ"
  | ne => "SETNE"
  | ge => "SETGE"
  | le => "SETLE"

/-- Whether a value with this sign stands in the relation to zero. -/
def holds : Relation → Ordering → Bool
  | gt, sign => sign.isGT
  | lt, sign => sign.isLT
  | eq, sign => sign.isEq
  | ne, sign => sign.isNe
  | ge, sign => sign.isGE
  | le, sign => sign.isLE

end Relation

/-- When a jump is taken, by the sign of R0. -/
inductive Condition
  | always
  | zero
  | lessOrEqual
  deriving DecidableEq

namespace Condition

/-- The opcode of the jump under a condition. -/
def mnemonic : Condition → String
  | always => "JMP"
  | zero => "JZ"
  | lessOrEqual => "JLE"

/-- Whether a jump is taken when R0 has this sign. -/
def holds : Condition → Ordering → Bool
  | always, _ => true
  | zero, sign => sign.isEq
  | lessOrEqual, sign => sign.isLE

end Condition

end WashController
