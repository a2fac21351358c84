import Mathlib.Data.List.TakeWhile
import WashController.Word

/-!
# Numbers in decimal

Decimal text is read back as the number that it was written from. Reading a literal reduces the
number to a word at every digit, which comes to the same as reducing it once at the end
(`ofDigits_eq`); so a word that is written in decimal is read back as itself (`ofLiteral_text`),
the lowest word included, whose digits alone denote no word.
-/

namespace WashController

namespace Text

theorem isBlank_of_isDigit {char : Char} (digit : char.isDigit = true) : isBlank char = false := by
  simp only [Char.isDigit, Bool.and_eq_true, decide_eq_true_eq] at digit
  have low : 48 ≤ char.toNat := digit.1
  have high : char.toNat ≤ 57 := digit.2
  simp only [isBlank, blankRanges, List.any_cons, List.any_nil, Bool.or_eq_false_iff,
    Bool.and_eq_false_iff, decide_eq_false_iff_not, and_true]
  omega

theorem isDigit_of_mem_repr {number : Nat} {char : Char} (member : char ∈ number.repr.toList) :
    char.isDigit = true := by
  rw [Nat.toList_repr] at member
  exact Nat.isDigit_of_mem_toDigits (by decide) (by decide) member

/-- Different numbers are written differently. -/
theorem repr_inj {number other : Nat} : number.repr = other.repr ↔ number = other := by
  refine ⟨fun same => ?_, congrArg Nat.repr⟩
  have digits := congrArg (fun text => Nat.ofDigitChars 10 text.toList 0) same
  simpa using digits

end Text

namespace Word

/-- Reducing a number at every digit is the same as reducing it once. -/
theorem ofDigits_eq (digits : List Char) :
    ofDigits digits = Int32.ofNat (Nat.ofDigitChars 10 digits 0) := by
  have general (total : Nat) :
      digits.foldl (fun total digit => total * 10 + Int32.ofNat (digit.toNat - '0'.toNat))
        (Int32.ofNat total) = Int32.ofNat (Nat.ofDigitChars 10 digits total) := by
    induction digits generalizing total with
    | nil => rfl
    | cons digit digits ih =>
        rw [List.foldl_cons, Nat.ofDigitChars_cons, ← ih, Int32.ofNat_add, Nat.mul_comm,
          Int32.ofNat_mul]
        rfl
  exact general 0

/-- The digits of a number denote the word that the number reduces to. -/
theorem ofDigits_repr (number : Nat) :
    ofDigits (number.repr.toList.takeWhile Char.isDigit) = Int32.ofNat number := by
  have digits : number.repr.toList.takeWhile Char.isDigit = number.repr.toList :=
    List.takeWhile_eq_self_iff.2 fun _ member => Text.isDigit_of_mem_repr member
  rw [digits, ofDigits_eq, Nat.toList_repr, Nat.ofDigitChars_ten_toDigits]

theorem ofLiteral_repr (number : Nat) : ofLiteral number.repr = Int32.ofNat number := by
  rw [← ofDigits_repr number]
  unfold ofLiteral
  cases text : number.repr.toList with
  | nil => exact absurd text (by simp)
  | cons first rest =>
      have digit : first.isDigit = true :=
        Text.isDigit_of_mem_repr (text ▸ List.mem_cons_self)
      have visible : ¬ Text.isBlank first = true := by simp [Text.isBlank_of_isDigit digit]
      rw [List.dropWhile_cons_of_neg visible]
      -- A digit is no sign.
      split
      · next sign => cases sign; cases digit
      · next sign => cases sign; cases digit
      · rfl

theorem ofLiteral_neg_repr (number : Nat) :
    ofLiteral ("-" ++ number.repr) = -Int32.ofNat number := by
  rw [← ofDigits_repr number]
  have sign : Text.isBlank '-' = false := by decide
  simp [ofLiteral, sign]

/-- A word that is written in decimal is read back. -/
theorem ofLiteral_text (word : Word) : ofLiteral word.text = word := by
  rw [text, Int.repr_eq_if]
  split
  · next nonneg =>
      rw [ofLiteral_repr, ← Int32.ofInt_eq_ofNat, Int.toNat_of_nonneg nonneg, Int32.ofInt_toInt]
  · next negative =>
      have size : ((-word.toInt).toNat : Int) = -word.toInt := Int.toNat_of_nonneg (by omega)
      rw [ofLiteral_neg_repr, ← Int32.ofInt_eq_ofNat, size, Int32.ofInt_neg, Int32.ofInt_toInt,
        Int32.neg_neg]

/-- A written word has a sign and digits only. -/
theorem mem_text {word : Word} {char : Char} (member : char ∈ word.text.toList) :
    char = '-' ∨ char.isDigit = true := by
  rw [text, Int.repr_eq_if] at member
  split at member
  · exact .inr (Text.isDigit_of_mem_repr member)
  · rw [String.toList_append, List.mem_append] at member
    rcases member with sign | digit
    · exact .inl (by simpa using sign)
    · exact .inr (Text.isDigit_of_mem_repr digit)

theorem text_ne_empty (word : Word) : word.text ≠ "" := by
  rw [text, Int.repr_eq_if]
  split <;> simp

end Word

end WashController
