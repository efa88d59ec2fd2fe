import TurtleGraphics.CommandLine.Session

/-!
# The Command-Line Program on the Real Host

## Main definitions

* `realHost`: The files and streams of the process.
* `main`: The entry point.
-/

namespace TurtleGraphics

namespace CommandLine

/-- The reason behind a failed operation on a file. -/
def fileError : IO.Error → FileError
  | .noFileOrDirectory _ code text | .interrupted _ code text | .permissionDenied _ code text
  | .inappropriateType _ code text | .invalidArgument _ code text | .alreadyExists _ code text
  | .resourceExhausted _ code text | .noSuchThing _ code text | .otherError code text
  | .resourceBusy code text | .resourceVanished code text | .unsupportedOperation code text
  | .hardwareFault code text | .unsatisfiedConstraints code text | .illegalOperation code text
  | .protocolError code text | .timeExpired code text => .other text code.toNat
  | .unexpectedEof => .other "Unexpected end of file" 0
  | .userError text => .other text 0

/-- The files and streams of the process. -/
def realHost : Host IO where
  read path := do
    try return .ok (← IO.FS.withFile path .read (·.readBinToEnd))
    catch e => return .error (fileError e)
  write path text := do
    try
      IO.FS.writeFile path text
      return .ok ()
    catch e => return .error (fileError e)
  out text := do
    let stream ← IO.getStdout
    stream.putStr text
    stream.flush
  err text := do
    let stream ← IO.getStderr
    stream.putStr text

end CommandLine

end TurtleGraphics

/-- Runs the program on the real files and streams. -/
def main (args : List String) : IO UInt32 :=
  TurtleGraphics.CommandLine.session TurtleGraphics.CommandLine.realHost args
