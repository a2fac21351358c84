import Mathlib.Algebra.Group.Nat.Defs
import WashController.Proofs.Decimal

/-!
# Literals

What a token denotes that is read as a literal, with no bound on the number. A token is blanks, a
sign, digits and a rest, and each of these takes as much as it can from what the one before it has
left (`Literal`). Every token is cut up like this (`Literal.exists_text_eq`) in one way only
(`Literal.text_inj`), so that it denotes one integer, which neither the blanks nor the rest have a
part in. Reading reduces the number at every digit and the sign after that, and still comes to that
integer reduced once (`Literal.ofLiteral_eq`).
-/

namespace WashController

/-! ## Runs of characters -/

section Run

variable {holds : Char → Bool} {run rest : List Char}

/-- Where a run of characters ends can be told from the character after it. -/
theorem Text.takeWhile_append_of_run (all : ∀ char ∈ run, holds char = true)
    (stops : ∀ char ∈ rest.head?, holds char = false) : (run ++ rest).takeWhile holds = run := by
  rw [List.takeWhile_append_of_pos all]
  cases rest with
  | nil => exact List.append_nil run
  | cons char rest =>
      have next : holds char = false := stops char rfl
      rw [List.takeWhile_cons_of_neg (by simp [next]), List.append_nil]

theorem Text.dropWhile_append_of_run (all : ∀ char ∈ run, holds char = true)
    (stops : ∀ char ∈ rest.head?, holds char = false) : (run ++ rest).dropWhile holds = rest := by
  rw [List.dropWhile_append_of_pos all]
  cases rest with
  | nil => rfl
  | cons char rest =>
      have next : holds char = false := stops char rfl
      rw [List.dropWhile_cons_of_neg (by simp [next])]

theorem Text.not_of_mem_head?_dropWhile (holds : Char → Bool) (text : List Char) :
    ∀ char ∈ (text.dropWhile holds).head?, holds char = false := by
  intro char first
  have stopped := List.head?_dropWhile_not holds text
  rwa [Option.mem_def.1 first] at stopped

end Run

/-! ## Signs -/

/-- The sign of a number, as it is written. -/
inductive Sign
  | unwritten
  | plus
  | minus
  deriving DecidableEq

namespace Sign

def text : Sign → List Char
  | unwritten => []
  | plus => ['+']
  | minus => ['-']

/-- The integer with this sign and of this size. -/
def apply : Sign → Nat → Int
  | unwritten, size => size
  | plus, size => size
  | minus, size => -size

/-- Whether a text does not start with a sign. -/
def Absent (unsigned : List Char) : Prop :=
  ∀ char ∈ unsigned.head?, char ≠ '+' ∧ char ≠ '-'

/-- Every text starts with a sign, which may be unwritten. -/
theorem exists_text_append (unsplit : List Char) :
    ∃ (sign : Sign) (unsigned : List Char), sign.text ++ unsigned = unsplit ∧
      (sign = unwritten → Absent unsigned) := by
  match unsplit with
  | [] => exact ⟨unwritten, [], rfl, fun _ => nofun⟩
  | first :: rest =>
      by_cases isPlus : first = '+'
      · exact ⟨plus, rest, by simp [text, isPlus], by simp⟩
      by_cases isMinus : first = '-'
      · exact ⟨minus, rest, by simp [text, isMinus], by simp⟩
      · refine ⟨unwritten, first :: rest, rfl, fun _ char same => ?_⟩
        cases same
        exact ⟨isPlus, isMinus⟩

theorem eq_unwritten_of_absent {sign : Sign} {unsigned text : List Char}
    (split : sign.text ++ unsigned = text) (absent : Absent text) : sign = unwritten := by
  subst split
  cases sign with
  | unwritten => rfl
  | plus => exact absurd rfl (absent '+' rfl).1
  | minus => exact absurd rfl (absent '-' rfl).2

/-- Which sign a text starts with can be told, if none is left unread. -/
theorem text_append_inj {sign other : Sign} {unsigned rest : List Char}
    (signed : sign = unwritten → Absent unsigned) (signedOther : other = unwritten → Absent rest)
    (same : sign.text ++ unsigned = other.text ++ rest) : sign = other ∧ unsigned = rest := by
  have agree : sign = other := by
    cases sign with
    | unwritten => exact (eq_unwritten_of_absent same.symm (signed rfl)).symm
    | plus | minus =>
        cases other with
        | unwritten => exact eq_unwritten_of_absent same (signedOther rfl)
        | plus | minus => cases same <;> rfl
  subst agree
  exact ⟨rfl, List.append_cancel_left same⟩

end Sign

/-! ## Tokens cut up -/

/-- A token as it is read for a number. -/
@[ext]
structure Literal where
  blanks : List Char
  sign : Sign
  digits : List Char
  rest : List Char
  blank : ∀ char ∈ blanks, Text.isBlank char = true
  digit : ∀ char ∈ digits, char.isDigit = true
  /-- No blank is left to the digits and the rest. -/
  visible : ∀ char ∈ (sign.text ++ (digits ++ rest)).head?, Text.isBlank char = false
  /-- Where a sign is written, it is not left to the rest. -/
  signed : sign = .unwritten → Sign.Absent (digits ++ rest)
  /-- No digit that continues the others is left to the rest. -/
  longest : ∀ char ∈ rest.head?, char.isDigit = false

namespace Literal

/-- The token itself. -/
def text (literal : Literal) : List Char :=
  literal.blanks ++ (literal.sign.text ++ (literal.digits ++ literal.rest))

/-- The integer that a token denotes: its digits are a decimal number of any size, which is zero if
there are none, and the sign goes before that. -/
def number (literal : Literal) : Int :=
  literal.sign.apply (Nat.ofDigitChars 10 literal.digits 0)

/-- Every token can be cut up. -/
theorem exists_text_eq (token : List Char) : ∃ literal : Literal, literal.text = token := by
  obtain ⟨sign, unsigned, split, signed⟩ :=
    Sign.exists_text_append (token.dropWhile Text.isBlank)
  have whole : unsigned.takeWhile Char.isDigit ++ unsigned.dropWhile Char.isDigit = unsigned :=
    List.takeWhile_append_dropWhile
  let literal : Literal :=
    { blanks := token.takeWhile Text.isBlank
      sign := sign
      digits := unsigned.takeWhile Char.isDigit
      rest := unsigned.dropWhile Char.isDigit
      blank := fun _ member => List.mem_takeWhile_imp member
      digit := fun _ member => List.mem_takeWhile_imp member
      visible := by
        rw [whole, split]
        exact Text.not_of_mem_head?_dropWhile Text.isBlank token
      signed := by rwa [whole]
      longest := Text.not_of_mem_head?_dropWhile Char.isDigit unsigned }
  refine ⟨literal, ?_⟩
  rw [text, whole, split, List.takeWhile_append_dropWhile]

variable (literal : Literal)

theorem takeWhile_text : literal.text.takeWhile Text.isBlank = literal.blanks :=
  Text.takeWhile_append_of_run literal.blank literal.visible

theorem dropWhile_text : literal.text.dropWhile Text.isBlank =
    literal.sign.text ++ (literal.digits ++ literal.rest) :=
  Text.dropWhile_append_of_run literal.blank literal.visible

theorem takeWhile_digits_rest :
    (literal.digits ++ literal.rest).takeWhile Char.isDigit = literal.digits :=
  Text.takeWhile_append_of_run literal.digit literal.longest

theorem dropWhile_digits_rest :
    (literal.digits ++ literal.rest).dropWhile Char.isDigit = literal.rest :=
  Text.dropWhile_append_of_run literal.digit literal.longest

variable {literal} {other : Literal}

/-- A token is cut up in one way only. -/
theorem text_inj (same : literal.text = other.text) : literal = other := by
  have blanks : literal.blanks = other.blanks := by
    rw [← literal.takeWhile_text, same, other.takeWhile_text]
  have visible : literal.sign.text ++ (literal.digits ++ literal.rest) =
      other.sign.text ++ (other.digits ++ other.rest) := by
    rw [← literal.dropWhile_text, same, other.dropWhile_text]
  obtain ⟨sign, unsigned⟩ := Sign.text_append_inj literal.signed other.signed visible
  have digits : literal.digits = other.digits := by
    rw [← literal.takeWhile_digits_rest, unsigned, other.takeWhile_digits_rest]
  have rest : literal.rest = other.rest := by
    rw [← literal.dropWhile_digits_rest, unsigned, other.dropWhile_digits_rest]
  exact Literal.ext blanks sign digits rest

/-- The word that is read is the number, reduced once. -/
theorem ofLiteral_eq {token : String} (cut : literal.text = token.toList) :
    Word.ofLiteral token = Int32.ofInt literal.number := by
  have digits := literal.takeWhile_digits_rest
  have signed := literal.signed
  rw [Word.ofLiteral, ← cut, dropWhile_text, number]
  cases sign : literal.sign with
  | plus =>
      simp only [Sign.text, List.cons_append, List.nil_append, digits, Word.ofDigits_eq, Sign.apply,
        Int32.ofInt_eq_ofNat]
  | minus =>
      simp only [Sign.text, List.cons_append, List.nil_append, digits, Word.ofDigits_eq, Sign.apply,
        Int32.ofInt_neg, Int32.ofInt_eq_ofNat]
  | unwritten =>
      rw [Sign.text, List.nil_append, Sign.apply, Int32.ofInt_eq_ofNat, ← Word.ofDigits_eq]
      -- No sign is found where none is written.
      split
      · next rest minus => exact absurd rfl (signed sign '-' (by rw [minus]; rfl)).2
      · next rest plus => exact absurd rfl (signed sign '+' (by rw [plus]; rfl)).1
      · rw [digits]

end Literal

/-- Literals of any length are exact. Every token is cut up, in one way only, into blanks, a sign,
decimal digits and a rest, each of them as long as it can be. The word that is read from it is the
integer that the sign and the digits denote, however many digits there are, reduced to the signed
numbers of 32 bits. So every word is read back from its decimal text, and the lowest one is no
exception, although its digits without the sign are out of range. -/
theorem literals_are_exact :
    (∀ token : String, ∃ literal : Literal, literal.text = token.toList ∧
      (∀ other : Literal, other.text = token.toList → other = literal) ∧
      (Word.ofLiteral token).toInt = literal.number.bmod (2 ^ 32)) ∧
    ∀ word : Word, Word.ofLiteral word.text = word := by
  refine ⟨fun token => ?_, Word.ofLiteral_text⟩
  obtain ⟨literal, cut⟩ := Literal.exists_text_eq token.toList
  refine ⟨literal, cut, fun other cutOther => Literal.text_inj (cutOther.trans cut.symm), ?_⟩
  rw [Literal.ofLiteral_eq cut]
  exact Int32.toInt_ofInt

/-- A number below the lowest word, after a blank that is no space and before letters; and the
lowest word itself. -/
theorem literals_are_exact_lowest :
    (Word.ofLiteral "\u2003-2147483649th").toInt = 2147483647 ∧
      Word.ofLiteral (Word.text (-2147483648)) = -2147483648 := by
  let literal : Literal :=
    { blanks := ['\u2003']
      sign := .minus
      digits := "2147483649".toList
      rest := "th".toList
      blank := List.all_eq_true.1 rfl
      digit := List.all_eq_true.1 rfl
      visible := by
        rintro char ⟨⟩
        rfl
      signed := nofun
      longest := by
        rintro char ⟨⟩
        rfl }
  obtain ⟨words, texts⟩ := literals_are_exact
  obtain ⟨cut, -, unique, read⟩ := words "\u2003-2147483649th"
  obtain rfl : literal = cut := unique literal rfl
  refine ⟨?_, texts (-2147483648)⟩
  rw [read]
  decide

end WashController
