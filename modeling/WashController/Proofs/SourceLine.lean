import WashController.Instruction
import WashController.SourceLine

/-!
# What a line says, told from its characters

`SourceLine.ofText` sorts lines. Here the three kinds are told apart by what a reader of the source
can see: whether a line `HoldsCode`, and which name it `Declares`. `ofText_eq_code_iff` and
`ofText_eq_label_iff` say that the sorting is by these properties, and `ofText?_trim` that a line
that holds code always has an instruction to decode: its first word is there.
-/

namespace WashController.SourceLine

/-- A line holds an instruction if something is left of it after trimming that neither starts with
a number sign nor contains a colon. -/
def HoldsCode (line : List Char) : Prop :=
  Text.trim line ≠ [] ∧ (Text.trim line).head? ≠ some '#' ∧ ':' ∉ Text.trim line

instance (line : List Char) : Decidable (HoldsCode line) :=
  inferInstanceAs (Decidable (_ ∧ _))

/-- A line declares a label if what is left of it after trimming does not start with a number sign
and contains a colon. The name is the first word before the first colon, and the empty text if
there is no such word. -/
def Declares (line : List Char) (name : String) : Prop :=
  (Text.trim line).head? ≠ some '#' ∧ ':' ∈ Text.trim line ∧
    name = Text.wordAt (Text.words ((Text.trim line).takeWhile (· ≠ ':'))) 0

instance (line : List Char) (name : String) : Decidable (Declares line name) :=
  inferInstanceAs (Decidable (_ ∧ _))

/-- The instruction that the first three words of a line spell. Words that are missing are empty. -/
def spelled (line : List Char) : Instruction :=
  .decode (Text.wordAt (Text.words line) 0) (Text.wordAt (Text.words line) 1)
    (Text.wordAt (Text.words line) 2)

theorem ofText_eq_code_iff {line text : List Char} :
    ofText line = .code text ↔ HoldsCode line ∧ text = Text.trim line := by
  unfold ofText HoldsCode
  split
  · next empty => simp [empty]
  · next comment => simp [comment]
  · next nonempty visible =>
      have notComment : (Text.trim line).head? ≠ some '#' := by
        intro comment
        obtain ⟨rest, split⟩ := List.head?_eq_some_iff.1 comment
        exact visible rest split
      have something : Text.trim line ≠ [] := nonempty
      by_cases colon : ':' ∈ Text.trim line <;> simp [colon, notComment, something, eq_comm]

theorem ofText_eq_label_iff {line : List Char} {name : String} :
    ofText line = .label name ↔ Declares line name := by
  unfold ofText Declares
  split
  · next empty => simp [empty]
  · next comment => simp [comment]
  · next nonempty visible =>
      have notComment : (Text.trim line).head? ≠ some '#' := by
        intro comment
        obtain ⟨rest, split⟩ := List.head?_eq_some_iff.1 comment
        exact visible rest split
      by_cases colon : ':' ∈ Text.trim line <;> simp [colon, notComment, eq_comm]

theorem isCode_ofText_iff {line : List Char} : (ofText line).isCode = true ↔ HoldsCode line := by
  cases said : ofText line with
  | code text => simpa [isCode] using (ofText_eq_code_iff.1 said).1
  | blank | label =>
      simp only [isCode, Bool.false_eq_true, false_iff]
      intro holds
      rw [ofText_eq_code_iff.2 ⟨holds, rfl⟩] at said
      cases said

/-- What is left of a line after trimming has a word, if anything is left. -/
theorem words_ne_nil_of_holdsCode {line : List Char} (holds : HoldsCode line) :
    Text.words line ≠ [] := by
  intro none
  exact holds.1 (Text.trim_eq_nil_iff.2 (Text.words_eq_nil_iff.1 none))

/-- Decoding never fails on a line that holds code. -/
theorem ofText?_trim {line : List Char} (holds : HoldsCode line) :
    Instruction.ofText? (Text.trim line) = some (spelled line) := by
  have nonempty : Text.words line ≠ [] := words_ne_nil_of_holdsCode holds
  unfold Instruction.ofText? spelled
  rw [Text.words_trim]
  cases words : Text.words line with
  | nil => exact absurd words nonempty
  | cons opcode operands => rfl

end WashController.SourceLine
