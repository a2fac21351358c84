/-!
# Columns

Text set in columns. Widths count characters, that is code points, and text that is already wide
enough is left alone.
-/

namespace WashController.Text

/-- Sets text at the right edge of a column, filled up on the left. -/
def padLeft (width : Nat) (fill : Char) (text : String) : String :=
  String.ofList (text.toList.leftpad width fill)

/-- Sets text at the left edge of a column, filled up with spaces on the right. -/
def padRight (width : Nat) (text : String) : String :=
  String.ofList (text.toList.rightpad width ' ')

/-- An index written with at least four decimal digits. -/
def index (position : Nat) : String :=
  padLeft 4 '0' position.repr

end WashController.Text
