/-!
# Load errors

Why there is no program to run: the source could not be read, or it holds more than the limits
allow. The words for each cause are in `ReadError.message` and `LoadError.message`.
-/

namespace WashController

/-- Why a source could not be read. All but `invalidUtf8` are refusals of the file system; the
usual ones are shown with their error numbers, any other one in its own words. -/
inductive ReadError
  | notFound
  | notDirectory
  | isDirectory
  | nameTooLong
  | invalidUtf8
  | other (reason : String)
  deriving DecidableEq

/-- A failure to read in words. -/
def ReadError.message : ReadError → String
  | notFound => "No such file or directory (os error 2)"
  | notDirectory => "Not a directory (os error 20)"
  | isDirectory => "Is a directory (os error 21)"
  | nameTooLong => "File name too long (os error 36)"
  | invalidUtf8 => "stream did not contain valid UTF-8"
  | other reason => reason

/-- Why there is no program to run. -/
inductive LoadError
  | unreadable (path : String) (reason : ReadError)
  | tooManyInstructions (limit : Nat)
  | tooManyLabels (name : String) (line limit : Nat)
  deriving DecidableEq

/-- A failure to load in words. -/
def LoadError.message : LoadError → String
  | unreadable path reason => "cannot open '" ++ path ++ "': " ++ reason.message
  | tooManyInstructions limit => "program has more than " ++ limit.repr ++ " instructions"
  | tooManyLabels name line limit =>
    "line " ++ line.repr ++ ": label '" ++ name ++ "' exceeds the limit of " ++ limit.repr
      ++ " labels"

end WashController
