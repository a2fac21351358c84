import WashController.Text.Blank

/-!
# Machine words

Registers, memory cells, stack slots and ticks all hold a word: a signed number of 32 bits whose
arithmetic wraps around. This module also writes words in decimal and reads the literals of a
program. Reading never fails, since whatever is not a digit ends the number.
-/

namespace WashController

/-- A signed number of 32 bits. -/
abbrev Word := Int32

namespace Word

/-- The decimal digits of a word, after a minus sign if it is negative. -/
def text (word : Word) : String :=
  word.toInt.repr

/-- The number that a run of decimal digits denotes, reduced to a word at every digit. -/
def ofDigits (digits : List Char) : Word :=
  digits.foldl (fun total digit => total * 10 + Int32.ofNat (digit.toNat - '0'.toNat)) 0

/-- A literal is blanks, an optional sign and decimal digits. Everything from the first character
that does not fit is ignored, so a token without digits denotes zero. -/
def ofLiteral (token : String) : Word :=
  match token.toList.dropWhile Text.isBlank with
  | '-' :: unsigned => -ofDigits (unsigned.takeWhile Char.isDigit)
  | '+' :: unsigned => ofDigits (unsigned.takeWhile Char.isDigit)
  | unsigned => ofDigits (unsigned.takeWhile Char.isDigit)

end Word

end WashController
