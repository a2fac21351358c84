import WashController.Proofs.Decimal
import WashController.Proofs.SourceLine

/-!
# Spelling

Which instructions a line of a source can spell, and how they are read back from their text. An
instruction is `Writable` if its names are plain tokens, without blanks and colons, and if its
opcode can stand at the start of a line; whatever a line spells is writable (`writable_spelled`).
The text of a writable instruction is a line of code (`holdsCode_text`), and it spells the
instruction again (`spelled_text`). Only a `STORE` without operands does not come back as it was,
for its empty name is lost among the spaces (`Instruction.reread`).
-/

namespace WashController

/-! ## Plain tokens -/

/-- Whether a token can be part of a line of code. It may be empty. -/
def Text.Plain (token : String) : Prop :=
  ∀ char ∈ token.toList, isBlank char = false ∧ char ≠ ':'

instance (token : String) : Decidable (Text.Plain token) :=
  List.decidableBAll (fun char => Text.isBlank char = false ∧ char ≠ ':') token.toList

/-- The words of a text without colons are plain, and so is a word that is missing. -/
theorem Text.plain_wordAt {text : List Char} (noColon : ':' ∉ text) (position : Nat) :
    Plain (wordAt (words text) position) := by
  intro char member
  rw [wordAt, String.toList_ofList, List.getD_eq_getElem?_getD] at member
  cases found : (words text)[position]? with
  | none => simp [found] at member
  | some word =>
      have inWord : char ∈ word := by simpa [found] using member
      obtain ⟨inText, visible⟩ := (of_mem_words (List.mem_of_getElem? found)).2 char inWord
      exact ⟨visible, fun same => noColon (same ▸ inText)⟩

/-- A name that a line declares is a plain token. -/
theorem SourceLine.plain_of_declares {line : List Char} {name : String}
    (declared : Declares line name) : Text.Plain name := by
  obtain ⟨-, -, rfl⟩ := declared
  refine Text.plain_wordAt (fun colon => ?_) 0
  simpa using List.mem_takeWhile_imp colon

/-- After a word that is missing there are no others. -/
theorem Text.wordAt_eq_empty_of_le {text : List Char} {position later : Nat}
    (le : position ≤ later) (missing : wordAt (words text) position = "") :
    wordAt (words text) later = "" := by
  have short : (words text).length ≤ position := by
    by_contra beyond
    have within : position < (words text).length := Nat.lt_of_not_le beyond
    have nonempty := (of_mem_words (List.getElem_mem within)).1
    exact nonempty (by simpa [wordAt, within] using missing)
  simp [wordAt, short.trans le]

theorem Text.of_mem_intercalate {separator char : Char} {pieces : List (List Char)}
    (member : char ∈ [separator].intercalate pieces) :
    char = separator ∨ ∃ piece ∈ pieces, char ∈ piece := by
  induction pieces with
  | nil => cases member
  | cons piece pieces ih =>
      cases pieces with
      | nil => exact .inr ⟨piece, List.mem_cons_self, by simpa using member⟩
      | cons second pieces =>
          rw [List.intercalate_cons_cons, List.mem_append, List.mem_append,
            List.mem_singleton] at member
          rcases member with (inPiece | same) | later
          · exact .inr ⟨piece, List.mem_cons_self, inPiece⟩
          · exact .inl same
          · refine (ih later).imp_right fun found => ?_
            obtain ⟨other, among, inOther⟩ := found
            exact ⟨other, List.mem_cons_of_mem piece among, inOther⟩

theorem Word.plain_text (word : Word) : Text.Plain word.text := by
  intro char member
  rcases mem_text member with rfl | digit
  · decide
  · refine ⟨Text.isBlank_of_isDigit digit, ?_⟩
    rintro rfl
    cases digit

theorem Slot.plain_text (slot : Slot) : Text.Plain slot.text := by
  rcases slot with _ | _ | _ <;> decide

theorem Operand.plain_text (operand : Operand) : Text.Plain operand.text := by
  cases operand with
  | register name => exact Slot.plain_text (some name)
  | literal value => exact value.plain_text

/-! ## Operands -/

theorem Slot.text_ne_empty (slot : Slot) : slot.text ≠ "" := by
  rcases slot with _ | _ | _ <;> decide

@[simp]
theorem Slot.ofName?_text (slot : Slot) : Register.ofName? slot.text = slot := by
  rcases slot with _ | _ | _ <;> rfl

theorem Operand.text_ne_empty (operand : Operand) : operand.text ≠ "" := by
  cases operand with
  | register name => exact Slot.text_ne_empty (some name)
  | literal value => exact value.text_ne_empty

/-- A number is not the name of a register. -/
theorem Word.ofName?_text (word : Word) : Register.ofName? word.text = none := by
  have noLetter : 'R' ∉ word.text.toList := by
    intro member
    rcases mem_text member with sign | digit
    · cases sign
    · cases digit
  unfold Register.ofName?
  split
  · next same => simp [same] at noLetter
  · next same => simp [same] at noLetter
  · rfl

@[simp]
theorem Operand.ofToken_text (operand : Operand) : ofToken operand.text = operand := by
  cases operand with
  | register name => simp [ofToken, text]
  | literal value => simp [ofToken, text, value.ofName?_text, value.ofLiteral_text]

namespace Instruction

/-! ## Instructions that can be written -/

/-- Whether an instruction can stand in a source. Operands are left out only at the end of a line,
so that a name which is missing is followed by nothing else, which is why a `STORE` without a name
has no value. -/
def Writable : Instruction → Prop
  | pushVariable name | load _ name | alloc name | jump _ name | read _ name | emit name =>
    Text.Plain name
  | store name value => Text.Plain name ∧ (name = "" → value = .literal 0)
  | unknown opcode =>
    Text.Plain opcode ∧ opcode ≠ "" ∧ opcode.toList.head? ≠ some '#' ∧
      ∀ first second, decode opcode first second = unknown opcode
  | _ => True

/-- Whatever is decoded from the words of a line can stand in a source. -/
theorem writable_decode {opcode first second : String} (plainOpcode : Text.Plain opcode)
    (plainFirst : Text.Plain first) (plainSecond : Text.Plain second) (nonempty : opcode ≠ "")
    (visible : opcode.toList.head? ≠ some '#') (inOrder : first = "" → second = "") :
    (decode opcode first second).Writable := by
  unfold decode
  split
  -- The opcodes in the order of decoding; only those with names matter.
  case h_2 | h_7 | h_23 | h_24 | h_25 | h_27 => exact plainFirst
  case h_5 | h_26 => exact plainSecond
  case h_6 =>
    refine ⟨plainFirst, fun missing => ?_⟩
    rw [inOrder missing]
    rfl
  case h_30 =>
    -- Whether an opcode is known does not depend on the operands.
    refine ⟨plainOpcode, nonempty, visible, fun third fourth => ?_⟩
    unfold decode
    split <;> simp_all
  all_goals trivial

/-- Whatever a line of code spells can stand in a source. -/
theorem writable_spelled {line : List Char} (holds : SourceLine.HoldsCode line) :
    (SourceLine.spelled line).Writable := by
  obtain ⟨nonempty, notComment, noColon⟩ := holds
  obtain ⟨first, rest, trimmed⟩ := List.exists_cons_of_ne_nil nonempty
  obtain ⟨opcode, more, split⟩ :=
    Text.words_cons_of_visible (Text.isBlank_of_trim_eq_cons trimmed) rest
  have plain := Text.plain_wordAt noColon
  have start : Text.wordAt (Text.words (Text.trim line)) 0 = String.ofList (first :: opcode) := by
    rw [trimmed, split]
    rfl
  rw [SourceLine.spelled, ← Text.words_trim]
  refine writable_decode (plain 0) (plain 1) (plain 2) ?_ ?_
    (Text.wordAt_eq_empty_of_le (Nat.le_succ 1))
  · simp [start]
  · rw [start]
    simpa [trimmed] using notComment

/-! ## The tokens of an instruction -/

variable {instruction : Instruction}

theorem plain_of_mem_tokens (writable : instruction.Writable) :
    ∀ token ∈ instruction.tokens, Text.Plain token := by
  cases instruction <;>
    simp only [tokens, List.forall_mem_cons, List.not_mem_nil, IsEmpty.forall_iff, implies_true,
      and_true]
  case pushLiteral value => exact ⟨by decide, value.plain_text⟩
  case pushVariable | alloc | emit => exact ⟨by decide, writable⟩
  case push slot | pop slot => exact ⟨by decide, slot.plain_text⟩
  case load slot _ | read slot _ => exact ⟨by decide, slot.plain_text, writable⟩
  case store value => exact ⟨by decide, writable.1, value.plain_text⟩
  case binary operation left right =>
    exact ⟨by cases operation <;> decide, left.plain_text, right.plain_text⟩
  case subLiteral slot value => exact ⟨by decide, slot.plain_text, value.plain_text⟩
  case compare left right => exact ⟨by decide, left.plain_text, right.plain_text⟩
  case set relation => cases relation <;> decide
  case jump condition _ => exact ⟨by cases condition <;> decide, writable⟩
  case unknown => exact ⟨writable.1, by decide⟩
  all_goals decide

/-- The first token is an opcode, which cannot be taken for a comment. -/
theorem exists_tokens_eq (writable : instruction.Writable) :
    ∃ first opcode operands, instruction.tokens = String.ofList (first :: opcode) :: operands ∧
      first ≠ '#' := by
  cases instruction with
  | unknown opcode =>
      obtain ⟨-, nonempty, visible, -⟩ := writable
      cases chars : opcode.toList with
      | nil => exact absurd (String.toList_eq_nil_iff.1 chars) nonempty
      | cons first rest =>
          refine ⟨first, rest, ["(unknown)"], ?_, by simpa [chars] using visible⟩
          rw [← chars, String.ofList_toList]
          rfl
  | binary operation => cases operation <;> exact ⟨_, _, _, rfl, by decide⟩
  | set relation => cases relation <;> exact ⟨_, _, _, rfl, by decide⟩
  | jump condition => cases condition <;> exact ⟨_, _, _, rfl, by decide⟩
  | _ => exact ⟨_, _, _, rfl, by decide⟩

/-- Only a `STORE` without a name has an empty token before the last one. -/
theorem ne_empty_of_mem_tokens (writable : instruction.Writable)
    (named : instruction ≠ .store "" (.literal 0)) :
    ∀ token ∈ instruction.tokens.dropLast, token ≠ "" := by
  cases instruction <;>
    simp only [tokens, List.dropLast_cons_cons, List.dropLast_singleton, List.forall_mem_cons,
      List.not_mem_nil, IsEmpty.forall_iff, implies_true, and_true]
  case load slot _ | read slot _ => exact ⟨by decide, slot.text_ne_empty⟩
  case store name value =>
    refine ⟨by decide, fun missing => ?_⟩
    rw [missing, writable.2 missing] at named
    exact named rfl
  case binary operation left _ => exact ⟨by cases operation <;> decide, left.text_ne_empty⟩
  case subLiteral slot _ => exact ⟨by decide, slot.text_ne_empty⟩
  case compare left _ => exact ⟨by decide, left.text_ne_empty⟩
  case jump condition _ => cases condition <;> decide
  case unknown => exact writable.2.1
  all_goals decide

/-- An instruction is decoded from its own tokens. -/
theorem decode_tokens (writable : instruction.Writable) :
    decode (instruction.tokens.getD 0 "") (instruction.tokens.getD 1 "")
      (instruction.tokens.getD 2 "") = instruction := by
  cases instruction with
  | pushLiteral value => exact congrArg pushLiteral value.ofLiteral_text
  | push slot => exact congrArg push slot.ofName?_text
  | pop slot => exact congrArg pop slot.ofName?_text
  | load slot name => exact congrArg (load · name) slot.ofName?_text
  | store name value => exact congrArg (store name) value.ofToken_text
  | binary operation left right =>
      cases operation <;> exact congrArg₂ (binary _) left.ofName?_text right.ofName?_text
  | subLiteral slot value => exact congrArg₂ subLiteral slot.ofName?_text value.ofLiteral_text
  | compare left right => exact congrArg₂ compare left.ofToken_text right.ofToken_text
  | set relation => cases relation <;> rfl
  | jump condition label => cases condition <;> rfl
  | read slot sensor => exact congrArg (read · sensor) slot.ofName?_text
  | unknown opcode => exact writable.2.2.2 "(unknown)" ""
  | pushVariable | alloc | and | or | not | emit | wait | halt => rfl

/-! ## The text of an instruction -/

/-- An empty token at the end makes no difference to the words before it. -/
theorem wordAt_filter {tokens : List String} (nonempty : ∀ token ∈ tokens.dropLast, token ≠ "")
    (position : Nat) :
    Text.wordAt ((tokens.map String.toList).filter (! ·.isEmpty)) position =
      tokens.getD position "" := by
  induction tokens generalizing position with
  | nil => rfl
  | cons token tokens ih =>
      cases tokens with
      | nil =>
          by_cases missing : token = ""
          · subst missing
            cases position <;> rfl
          · cases position <;> simp [Text.wordAt, missing]
      | cons second tokens =>
          rw [List.dropLast_cons_cons, List.forall_mem_cons] at nonempty
          obtain ⟨present, rest⟩ := nonempty
          rw [List.map_cons, List.filter_cons, if_pos (by simpa using present)]
          cases position with
          | zero => simp [Text.wordAt]
          | succ position => simpa [Text.wordAt] using ih rest position

theorem toList_text (instruction : Instruction) :
    instruction.text.toList = [' '].intercalate (instruction.tokens.map String.toList) := by
  simp [text, String.toList_intercalate]

theorem words_text (writable : instruction.Writable) :
    Text.words instruction.text.toList =
      (instruction.tokens.map String.toList).filter (! ·.isEmpty) := by
  rw [toList_text]
  refine Text.words_intercalate (by decide) fun chars member char inToken => ?_
  obtain ⟨token, inTokens, rfl⟩ := List.mem_map.1 member
  exact (plain_of_mem_tokens writable token inTokens char inToken).1

/-- The text of an instruction has no blanks but the spaces between its tokens, and no colons. -/
theorem of_mem_text (writable : instruction.Writable) {char : Char}
    (member : char ∈ instruction.text.toList) :
    char = ' ' ∨ Text.isBlank char = false ∧ char ≠ ':' := by
  rw [toList_text] at member
  refine (Text.of_mem_intercalate member).imp_right fun inToken => ?_
  obtain ⟨chars, inTokens, inChars⟩ := inToken
  obtain ⟨token, member, rfl⟩ := List.mem_map.1 inTokens
  exact plain_of_mem_tokens writable token member char inChars

/-- Blanks other than spaces are not part of the text of an instruction. -/
theorem not_mem_text (writable : instruction.Writable) {char : Char}
    (blank : Text.isBlank char = true) (noSpace : char ≠ ' ') : char ∉ instruction.text.toList := by
  intro member
  rcases of_mem_text writable member with space | ⟨visible, -⟩
  · exact noSpace space
  · rw [blank] at visible
    cases visible

/-- The text of an instruction is a line of code. -/
theorem holdsCode_text (writable : instruction.Writable) :
    SourceLine.HoldsCode instruction.text.toList := by
  obtain ⟨first, opcode, operands, split, notComment⟩ := exists_tokens_eq writable
  have plain : Text.Plain (String.ofList (first :: opcode)) :=
    plain_of_mem_tokens writable _ (split ▸ List.mem_cons_self)
  have visible : Text.isBlank first = false := (plain first (by simp)).1
  have starts : instruction.text.toList =
      first :: [' '].intercalate (opcode :: operands.map String.toList) := by
    rw [toList_text, split, List.map_cons, String.toList_ofList, List.intercalate_cons_cons_left]
  obtain ⟨rest, trimmed⟩ := Text.trim_cons_of_visible visible
    ([' '].intercalate (opcode :: operands.map String.toList))
  rw [← starts] at trimmed
  refine ⟨by simp [trimmed], by simpa [trimmed] using notComment, fun colon => ?_⟩
  rcases of_mem_text writable (Text.mem_of_mem_trim colon) with space | ⟨-, noColon⟩
  · cases space
  · exact noColon rfl

/-- What the text of an instruction spells. -/
theorem spelled_text_of_named (writable : instruction.Writable)
    (named : instruction ≠ .store "" (.literal 0)) :
    SourceLine.spelled instruction.text.toList = instruction := by
  have nonempty := ne_empty_of_mem_tokens writable named
  rw [SourceLine.spelled, words_text writable, wordAt_filter nonempty, wordAt_filter nonempty,
    wordAt_filter nonempty, decode_tokens writable]

/-- An instruction as it is read back from its text. A `STORE` without a name is written with its
value, which is then taken for the name. -/
def reread (instruction : Instruction) : Instruction :=
  if instruction = .store "" (.literal 0) then .store "0" (.literal 0) else instruction

/-- What the text of an instruction spells. -/
theorem spelled_text (writable : instruction.Writable) :
    SourceLine.spelled instruction.text.toList = instruction.reread := by
  unfold reread
  split
  · next bare =>
      subst bare
      decide
  · next named => exact spelled_text_of_named writable named

/-- Different instructions are written differently, even if spaces do not count. -/
theorem eq_of_words_text {other : Instruction} (writable : instruction.Writable)
    (writableOther : other.Writable)
    (same : Text.words instruction.text.toList = Text.words other.text.toList) :
    instruction = other := by
  have reread : instruction.reread = other.reread := by
    rw [← spelled_text writable, ← spelled_text writableOther, SourceLine.spelled,
      SourceLine.spelled, same]
  unfold Instruction.reread at reread
  split at reread
  · next bare =>
      split at reread
      · next bareOther => rw [bare, bareOther]
      · -- The value that is taken for a name is not followed by another value.
        subst bare reread
        revert same
        decide
  · split at reread
    · next bareOther =>
        subst bareOther reread
        revert same
        decide
    · exact reread

end Instruction

end WashController
