import TurtleGraphics.CommandLine.Args
import TurtleGraphics.CommandLine.FileError
import TurtleGraphics.Run
import TurtleGraphics.Svg
import TurtleGraphics.Text.Utf8

/-!
# The Command-Line Program

The program reads a turtle program from its arguments or from a file, runs it and
writes the picture to a file or to the standard output. Diagnostics go to the
standard error stream; mere notes go to the standard output, unless the picture
is written there.

What the program does to the world is expressed through a `Host`, which may be
the real one or one held in memory.

## Main definitions

* `Host`: Files and streams.
* `session`: All that one call of the program does.
-/

namespace TurtleGraphics

namespace CommandLine

/-- The files and streams that a call has access to. -/
structure Host (m : Type → Type) where
  read : String → m (Except FileError ByteArray)
  write : String → String → m (Except FileError Unit)
  out : String → m Unit
  err : String → m Unit

/-- The codes with which a call ends. -/
def success : UInt32 := 0

@[inherit_doc success]
def failure : UInt32 := 1

@[inherit_doc success]
def misuse : UInt32 := 2

/-- Where the picture goes: to a file, or else to the standard output. -/
def Args.destination (a : Args) : Option String :=
  match a.output with
  | some "-" => none
  | output => output

/-- The settings of the run. -/
def Args.options (a : Args) : Options :=
  let d : Options := {}
  { width := a.width.getD d.width
    height := a.height.getD d.height
    maxOperations := a.maxOperations.getD d.maxOperations
    cursor := a.cursor }

section

variable {m : Type → Type} [Monad m] (host : Host m)

/-- The program text. Text among the arguments wins over a file. -/
def source (a : Args) : m (Except String String) :=
  match a.eval, a.file with
  | some text, _ => return .ok text
  | none, some file => do
    match ← host.read file with
    | .ok bytes => return .ok (Text.Utf8.decode bytes)
    | .error e => return .error ("Error reading " ++ file ++ ": " ++ e.message ++ "\n")
  | none, none => return .error "No input file or program specified\n"

/-- Shows one diagnostic on the stream where it belongs. -/
def showDiagnostic (pictureOnOutput : Bool) (d : Diagnostic) : m Unit :=
  match d.severity with
  | .info => (if pictureOnOutput then host.err else host.out) (d.shown ++ "\n")
  | .warning => host.err ("Warning: " ++ d.shown ++ "\n")
  | .error => host.err ("Error: " ++ d.shown ++ "\n")

/-- Shows diagnostics in order. -/
def showAll (pictureOnOutput : Bool) : List Diagnostic → m Unit
  | [] => return
  | d :: rest => do
    showDiagnostic host pictureOnOutput d
    showAll pictureOnOutput rest

/-- Writes the picture where it belongs. -/
def deliver (a : Args) (svg : String) : m UInt32 :=
  match a.destination with
  | none => do
    host.out svg
    return success
  | some path => do
    match ← host.write path svg with
    | .ok () =>
      if !a.quiet then host.err ("Wrote " ++ path ++ "\n")
      return success
    | .error e =>
      host.err ("Error writing " ++ path ++ ": " ++ e.message ++ "\n")
      return failure

/-- Runs the program that the arguments name. -/
def execute (a : Args) : m UInt32 := do
  match ← source host a with
  | .error message =>
    host.err message
    return failure
  | .ok text =>
    let report := run a.options text
    if !a.quiet then showAll host a.destination.isNone report.log.entries.toList
    deliver host a (Svg.render Svg.defaultPrecision report.picture)

/-- All that one call of the program does. -/
def session (args : List String) : m UInt32 :=
  match Args.parse? args with
  | some a => execute host a
  | none => do
    host.err "Invalid arguments\n"
    return misuse

end

end CommandLine

end TurtleGraphics
