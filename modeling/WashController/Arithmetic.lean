import WashController.Word

/-!
# Arithmetic

What an interpreter needs to know of the values it computes with. The controller computes with
words, which wrap around; the same programs make sense over the integers, where nothing wraps. Both
are instances, so one interpreter serves for either and the two can be compared.
-/

namespace WashController

/-- Values an interpreter can compute with. -/
class Arithmetic (α : Type) where
  /-- The value of a word written in a program or read from a sensor. -/
  ofWord : Word → α
  add : α → α → α
  sub : α → α → α
  mul : α → α → α
  /-- The quotient without its fractional part. It is only asked for with a divisor other
  than zero. -/
  quotient : α → α → α
  /-- The order of two values as signed numbers. -/
  order : α → α → Ordering

/-- Word arithmetic wraps around; the order compares the signed numbers themselves. -/
instance : Arithmetic Word where
  ofWord word := word
  add left right := left + right
  sub left right := left - right
  mul left right := left * right
  quotient dividend divisor := dividend / divisor
  order left right := Ord.compare left.toInt right.toInt

/-- Integer arithmetic is exact. -/
instance : Arithmetic Int where
  ofWord word := word.toInt
  add left right := left + right
  sub left right := left - right
  mul left right := left * right
  quotient dividend divisor := dividend.tdiv divisor
  order left right := Ord.compare left right

namespace Arithmetic

variable {α : Type} [Arithmetic α]

/-- Zero, which registers, new cells and the tick count start from. -/
def zero : α :=
  ofWord 0

/-- How a value compares with zero. -/
def sign (value : α) : Ordering :=
  order value zero

/-- Every value other than zero counts as true. -/
def truth (value : α) : Bool :=
  (sign value).isNe

/-- True is one and false is zero. -/
def ofTruth (holds : Bool) : α :=
  ofWord (if holds then 1 else 0)

/-- Greater is one, less is minus one, equal is zero. -/
def ofOrdering : Ordering → α
  | .gt => ofWord 1
  | .lt => ofWord (-1)
  | .eq => ofWord 0

end Arithmetic

end WashController
