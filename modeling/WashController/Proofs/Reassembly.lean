import WashController.Proofs.Limits
import WashController.Proofs.Spelling

/-!
# Programs as sources

A program that a source gives can be written as a source again, one instruction to a line. Its
instructions are writable (`writable_of_ofSource`), and so each line of the text holds just the
instruction that it was written from (`lines_sourceText`). Hence the text is assembled within the
same limits into the same program, without labels and on lines of its own (`reassembles`).
-/

namespace WashController

namespace SourceLine

variable {lines : List SourceLine} (code : ∀ line ∈ lines, line.isCode = true)

include code

/-- Lines of code use up instructions only. -/
theorem fits_of_isCode {limits : Limits} (room : lines.length ≤ limits.maxInstructions) :
    Fits limits lines := by
  have count : codeCount lines = lines.length := List.countP_eq_length.2 code
  have names : labelNames lines = ∅ := by
    refine Finset.eq_empty_iff_forall_notMem.2 fun name declared => ?_
    cases code _ (mem_labelNames.1 declared)
  exact ⟨count ▸ room, names ▸ Nat.zero_le _⟩

theorem warnings_of_isCode (first : Nat) : warnings lines first = #[] := by
  refine congrArg List.toArray (List.filterMap_eq_nil_iff.2 fun numbered member => if_neg ?_)
  intro unnamed
  have isCode := code _ (List.fst_mem_of_mem_zipIdx member)
  rw [unnamed] at isCode
  cases isCode

end SourceLine

namespace Assembly

/-- The instructions of a program, one on each line. -/
def sourceText (assembly : Assembly) : String :=
  "\n".intercalate (assembly.program.toList.map fun code => code.instruction.text)

variable {limits : Limits} {name source : String} {log after : Log} {assembly : Assembly}

/-- What stands in a program has been written in a source. -/
theorem writable_of_ofSource (loaded : ofSource limits name source log = .ok assembly after) :
    ∀ code ∈ assembly.program.toList, code.instruction.Writable := by
  intro code member
  rw [program_of_ofSource loaded] at member
  obtain ⟨⟨line, number⟩, -, spelled⟩ := List.mem_filterMap.1 member
  rw [Option.ite_none_right_eq_some] at spelled
  obtain ⟨holds, same⟩ := spelled
  cases same
  exact Instruction.writable_spelled holds

theorem lines_sourceText
    (writable : ∀ code ∈ assembly.program.toList, code.instruction.Writable) :
    Text.lines assembly.sourceText.toList =
      assembly.program.toList.map fun code => code.instruction.text.toList := by
  have text : assembly.sourceText.toList = ['\n'].intercalate
      (assembly.program.toList.map fun code => code.instruction.text.toList) := by
    simp [sourceText, String.toList_intercalate, Function.comp_def]
  rw [text]
  refine Text.lines_intercalate fun line member => ?_
  obtain ⟨code, inProgram, rfl⟩ := List.mem_map.1 member
  have written : code.instruction.Writable := writable code inProgram
  refine ⟨Instruction.not_mem_text written (by decide) (by decide), fun ending => ?_,
    fun empty => ?_⟩
  · exact Instruction.not_mem_text written (by decide) (by decide) (List.mem_of_getLast? ending)
  · have trimmed := (Instruction.holdsCode_text written).1
    rw [empty] at trimmed
    exact trimmed rfl

/-- Each line of the text is a line of code. -/
theorem ofSource_sourceText
    (writable : ∀ code ∈ assembly.program.toList, code.instruction.Writable) :
    SourceLine.ofSource assembly.sourceText =
      assembly.program.toList.map fun code =>
        .code (Text.trim code.instruction.text.toList) := by
  rw [SourceLine.ofSource, lines_sourceText writable, List.map_map]
  refine List.map_congr_left fun code member => ?_
  exact SourceLine.ofText_eq_code_iff.2 ⟨Instruction.holdsCode_text (writable code member), rfl⟩

theorem program_of_sourceText {again : Assembly} {other : String} {start final : Log}
    (writable : ∀ code ∈ assembly.program.toList, code.instruction.Writable)
    (loaded : ofSource limits other assembly.sourceText start = .ok again final) :
    again.program.toList = (assembly.program.toList.zipIdx 1).map fun (code, number) =>
      ⟨code.instruction.reread, number⟩ := by
  rw [program_of_ofSource loaded, lines_sourceText writable, List.zipIdx_map, List.filterMap_map,
    ← List.filterMap_eq_map]
  refine List.filterMap_congr fun numbered member => ?_
  have inProgram := writable numbered.1 (List.fst_mem_of_mem_zipIdx member)
  simp [Instruction.holdsCode_text inProgram, Instruction.spelled_text inProgram]

/-- A program can be written as a source, and is read back from it. The text of a program, one
instruction to a line, is assembled whenever the program is within the limits, without a warning.
It has no labels, and as many instructions as the program; each is the one that it was written
from, and stands on the line after those before it. Only a `STORE` without operands comes back with
the value that it was written with for its name. -/
theorem reassembles (loaded : ofSource limits name source log = .ok assembly after)
    (other : String) (start : Log) :
    ∃ again, ofSource limits other assembly.sourceText start = .ok again start ∧
      again.labels = .empty ∧ again.size = assembly.size ∧
      ∀ address code, assembly.fetch? address = some code →
        again.fetch? address = some ⟨code.instruction.reread, address + 1⟩ := by
  have writable := writable_of_ofSource loaded
  have lines := ofSource_sourceText writable
  have code : ∀ line ∈ SourceLine.ofSource assembly.sourceText, line.isCode = true := by
    rw [lines]
    intro line member
    obtain ⟨code, -, rfl⟩ := List.mem_map.1 member
    rfl
  have room : (SourceLine.ofSource assembly.sourceText).length ≤ limits.maxInstructions := by
    rw [lines, List.length_map]
    exact size_le_maxInstructions loaded
  obtain ⟨again, loadedAgain⟩ := exists_ofLines (SourceLine.fits_of_isCode code room) other start
  rw [SourceLine.warnings_of_isCode code, Array.append_empty] at loadedAgain
  have program := program_of_sourceText writable loadedAgain
  refine ⟨again, loadedAgain, ?_, ?_, fun address code fetched => ?_⟩
  · refine LabelTable.ext fun label => ?_
    rw [LabelTable.get?_empty]
    refine get?_of_ofLines_of_undeclared loadedAgain fun line member isLabel => ?_
    subst isLabel
    cases code _ member
  · simpa [size] using congrArg List.length program
  · have found : assembly.program.toList[address]? = some code := by simpa [fetch?] using fetched
    rw [fetch?, ← Array.getElem?_toList, program, List.getElem?_map, List.getElem?_zipIdx, found,
      Nat.add_comm 1 address]
    rfl

/-- The lowest word, an operand that names no register, an opcode that nobody knows, and a `STORE`
without operands. -/
theorem reassembles_bare_store :
    ∃ assembly again : Assembly,
      ofSource {} "odd" "PUSHI -2147483648\n\nPOP R9\nspin: # note\nSPIN fast\nSTORE\n" #[] =
        .ok assembly #[] ∧
      ofSource {} "again" assembly.sourceText #[] = .ok again #[] ∧
      again.fetch? 0 = some ⟨.pushLiteral (-2147483648), 1⟩ ∧
      again.fetch? 1 = some ⟨.pop none, 2⟩ ∧
      again.fetch? 2 = some ⟨.unknown "SPIN", 3⟩ ∧
      again.fetch? 3 = some ⟨.store "0" (.literal 0), 4⟩ := by
  let assembly : Assembly :=
    ⟨"odd", #[⟨.pushLiteral (-2147483648), 1⟩, ⟨.pop none, 3⟩, ⟨.unknown "SPIN", 5⟩,
      ⟨.store "" (.literal 0), 6⟩], ⟨{("spin", 2)}⟩⟩
  have loaded : ofSource {} "odd" "PUSHI -2147483648\n\nPOP R9\nspin: # note\nSPIN fast\nSTORE\n"
      #[] = .ok assembly #[] := rfl
  obtain ⟨again, loadedAgain, -, -, program⟩ := reassembles loaded "again" #[]
  exact ⟨assembly, again, loaded, loadedAgain, program 0 _ rfl, program 1 _ rfl, program 2 _ rfl,
    program 3 _ rfl⟩

end Assembly

end WashController
