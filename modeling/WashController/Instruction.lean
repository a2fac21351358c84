import WashController.Instruction.Operand
import WashController.Instruction.Operation

/-!
# Instructions

Instructions, how they are decoded from the tokens of a line, and how they are shown. Decoding is
total: a missing operand is the empty token, and an opcode that nobody knows becomes an
instruction of its own, which faults only when it is executed.
-/

namespace WashController

/-- What the controller can be told to do. -/
inductive Instruction
  | pushLiteral (value : Word)
  | pushVariable (name : String)
  | push (source : Slot)
  | pop (target : Slot)
  | load (target : Slot) (name : String)
  | store (name : String) (value : Operand)
  | alloc (name : String)
  | binary (operation : BinaryOp) (left right : Slot)
  | subLiteral (target : Slot) (value : Word)
  | compare (left right : Operand)
  | set (relation : Relation)
  | and
  | or
  | not
  | jump (condition : Condition) (label : String)
  | read (target : Slot) (sensor : String)
  | emit (actuator : String)
  | wait
  | halt
  | unknown (opcode : String)
  deriving DecidableEq

namespace Instruction

/-- The instruction that an opcode and its first two operand tokens denote. Opcodes are written
exactly so, in capitals. -/
def decode (opcode first second : String) : Instruction :=
  match opcode with
  | "PUSHI" => pushLiteral (Word.ofLiteral first)
  | "PUSHV" => pushVariable first
  | "PUSH" => push (Register.ofName? first)
  | "POP" => pop (Register.ofName? first)
  | "LOAD" => load (Register.ofName? first) second
  | "STORE" => store first (Operand.ofToken second)
  | "ALLOC" => alloc first
  | "ADD" => binary .add (Register.ofName? first) (Register.ofName? second)
  | "SUB" => binary .sub (Register.ofName? first) (Register.ofName? second)
  | "MUL" => binary .mul (Register.ofName? first) (Register.ofName? second)
  | "DIV" => binary .div (Register.ofName? first) (Register.ofName? second)
  | "SUBI" => subLiteral (Register.ofName? first) (Word.ofLiteral second)
  | "CMP" => compare (Operand.ofToken first) (Operand.ofToken second)
  | "SETGT" => set .gt
  | "SETLT" => set .lt
  | "SETEQ" => set .eq
  | "SETNE" => set .ne
  | "SETGE" => set .ge
  | "SETLE" => set .le
  | "AND" => and
  | "OR" => or
  | "NOT" => not
  | "JMP" => jump .always first
  | "JZ" => jump .zero first
  | "JLE" => jump .lessOrEqual first
  | "READ" => read (Register.ofName? first) second
  | "EMIT" => emit first
  | "WAIT" => wait
  | "HALT" => halt
  | other => unknown other

/-- The instruction that the words of a text denote: an opcode and up to two operands. Further words
do not count, and operands that are missing are empty. Only a text without words denotes none. -/
def ofText? (text : List Char) : Option Instruction :=
  match Text.words text with
  | [] => none
  | opcode :: operands =>
    some (decode (String.ofList opcode) (Text.wordAt operands 0) (Text.wordAt operands 1))

/-- The opcode of an instruction and its operands, as they are shown. A name may be empty. -/
def tokens : Instruction → List String
  | pushLiteral value => ["PUSHI", value.text]
  | pushVariable name => ["PUSHV", name]
  | push source => ["PUSH", source.text]
  | pop target => ["POP", target.text]
  | load target name => ["LOAD", target.text, name]
  | store name value => ["STORE", name, value.text]
  | alloc name => ["ALLOC", name]
  | binary operation left right => [operation.mnemonic, left.text, right.text]
  | subLiteral target value => ["SUBI", target.text, value.text]
  | compare left right => ["CMP", left.text, right.text]
  | set relation => [relation.mnemonic]
  | and => ["AND"]
  | or => ["OR"]
  | not => ["NOT"]
  | jump condition label => [condition.mnemonic, label]
  | read target sensor => ["READ", target.text, sensor]
  | emit actuator => ["EMIT", actuator]
  | wait => ["WAIT"]
  | halt => ["HALT"]
  | unknown opcode => [opcode, "(unknown)"]

/-- The tokens with one space between each two, so that an empty name leaves its space. -/
def text (instruction : Instruction) : String :=
  " ".intercalate instruction.tokens

end Instruction

/-- An instruction together with the number of the source line that it stands on. -/
structure CodeLine where
  instruction : Instruction
  line : Nat
  deriving DecidableEq

end WashController
