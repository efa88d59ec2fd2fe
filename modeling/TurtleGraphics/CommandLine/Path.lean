/-!
# Paths

A path is a text of steps divided by slashes. A slash in front makes it start at
the root instead of the working directory, several slashes in a row count as one,
and a slash at the end asks for a directory.

## Main definitions

* `Step`: Where one step of a path leads.
* `Path`: A path taken apart.
* `Path.ofString`: The path that a text denotes.
-/

namespace TurtleGraphics

namespace CommandLine

/-- Where one step leads: nowhere else, to the directory above, or to what a name
    stands for. -/
inductive Step where
  | stay
  | up
  | into (name : String)
  deriving DecidableEq, Repr

/-- The step that a text between slashes denotes. -/
def Step.ofString : String → Step
  | "." => .stay
  | ".." => .up
  | name => .into name

/-- A path taken apart. -/
structure Path where
  /-- Whether it starts at the root. -/
  absolute : Bool
  steps : List Step
  /-- Whether a slash stands at the end. -/
  slashed : Bool
  deriving DecidableEq, Repr

namespace Path

/-- The most bytes that the text of a path can have. -/
def maxLength : Nat := 4095

/-- Cuts text at the slashes. -/
def split : List Char → List (List Char)
  | [] => [[]]
  | c :: rest =>
    if c = '/' then [] :: split rest
    else
      match split rest with
      | [] => [[c]]
      | piece :: others => (c :: piece) :: others

/-- The path that a text denotes. -/
def ofString (text : String) : Path :=
  let chars := text.toList
  { absolute := chars.head? == some '/'
    steps := ((split chars).filter (!·.isEmpty)).map fun s => Step.ofString (String.ofList s)
    slashed := chars.getLast? == some '/' }

end Path

end CommandLine

end TurtleGraphics
