/-!
# Character Classes of the Language

Commands and expressions share three classes of characters. All of them consist
of ASCII characters only, whatever alphabet a program is written in.

## Main definitions

* `isBlank`: The characters between commands.
* `isNameChar`: The characters of procedure and variable names.
* `isName`: The texts that can be names.
-/

namespace TurtleGraphics

/-- The characters skipped between commands and inside parameter lists. -/
def isBlank (c : Char) : Bool :=
  c == ' ' || c == '\t' || c == '\r' || c == '\n' || c == '\x00'

/-- The characters of names: letters and digits, the underscore and the dollar
    sign. -/
def isNameChar (c : Char) : Bool := c.isAlphanum || c == '_' || c == '$'

/-- Whether a text as a whole can be a name. A lone dollar sign cannot. -/
def isName (s : List Char) : Bool := !s.isEmpty && s != ['$'] && s.all isNameChar

end TurtleGraphics
