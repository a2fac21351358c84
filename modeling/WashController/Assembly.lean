import WashController.Instruction
import WashController.LabelTable

/-!
# Assemblies

A program ready to run: its instructions by address, and where its labels point.
-/

namespace WashController

/-- A program ready to run. -/
structure Assembly where
  name : String
  program : Array CodeLine
  labels : LabelTable
  deriving DecidableEq

namespace Assembly

/-- The instruction at an address, unless the address is past the end of the program. -/
def fetch? (assembly : Assembly) (address : Nat) : Option CodeLine :=
  assembly.program[address]?

/-- The number of instructions. -/
def size (assembly : Assembly) : Nat :=
  assembly.program.size

theorem fetch?_eq_none_iff {assembly : Assembly} {address : Nat} :
    assembly.fetch? address = none ↔ assembly.size ≤ address :=
  Array.getElem?_eq_none_iff

theorem lt_size_of_fetch? {assembly : Assembly} {address : Nat} {code : CodeLine}
    (fetched : assembly.fetch? address = some code) : address < assembly.size :=
  (Array.getElem?_eq_some_iff.1 fetched).1

theorem exists_fetch? {assembly : Assembly} {address : Nat} (within : address < assembly.size) :
    ∃ code, assembly.fetch? address = some code :=
  ⟨_, Array.getElem?_eq_getElem within⟩

end Assembly

end WashController
