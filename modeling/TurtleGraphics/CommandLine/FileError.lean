/-!
# Failures of File Access

A file that cannot be read or written is reported with a sentence and the number
under which the system knows the reason.

## Main definitions

* `FileError`: Why a file cannot be read or written.
* `FileError.message`: The report of a failure.
-/

namespace TurtleGraphics

namespace CommandLine

/-- Why a file cannot be read or written. -/
inductive FileError where
  /-- A name on the way is not there. -/
  | notFound
  /-- A file stands where a directory is needed. -/
  | notDirectory
  /-- A directory stands where a file is needed. -/
  | isDirectory
  /-- A name or the whole path has too many bytes. -/
  | nameTooLong
  | other (text : String) (code : Nat)
  deriving DecidableEq, Repr

namespace FileError

/-- The reason in words. -/
def text : FileError → String
  | notFound => "No such file or directory"
  | notDirectory => "Not a directory"
  | isDirectory => "Is a directory"
  | nameTooLong => "File name too long"
  | other text _ => text

/-- The number of the reason. -/
def code : FileError → Nat
  | notFound => 2
  | notDirectory => 20
  | isDirectory => 21
  | nameTooLong => 36
  | other _ code => code

/-- The report of a failure. -/
def message (e : FileError) : String := e.text ++ " (os error " ++ toString e.code ++ ")"

end FileError

end CommandLine

end TurtleGraphics
