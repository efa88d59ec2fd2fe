import TurtleGraphics.CommandLine.FileTree
import TurtleGraphics.CommandLine.Session

/-!
# A Host in Memory

A host without effects: a tree of files and two streams, all held as values. A
call of the command-line program on it is an ordinary function.

The tree holds the working directory with the files of the caller, the
directories above it, and the null device. Within one call nothing is read after
something was written, so an empty file does for the device.

## Main definitions

* `Memory`: The files and what the streams have received.
* `Memory.files`: The files in the working directory.
* `Memory.host`: The host on such a state.
* `runInMemory`: A call of the program.
-/

namespace TurtleGraphics

namespace CommandLine

/-- A tree of files and two streams. -/
structure Memory where
  tree : FileTree
  out : String := ""
  err : String := ""

namespace Memory

/-- The working directory, two steps below the root. -/
def working : Place := ["work", "tmp"]

/-- A working directory with some files, and nothing in the streams yet. -/
def ofFiles (files : List (String × ByteArray)) : Memory :=
  { tree :=
      { directories := [working, ["tmp"], ["dev"]]
        files := (["null", "dev"], .empty) :: files.map fun (name, content) =>
          (name :: working, content) } }

/-- The files in the working directory. -/
def files (m : Memory) : List (String × ByteArray) :=
  m.tree.files.filterMap fun
    | (name :: dir, content) => if dir = working then some (name, content) else none
    | ([], _) => none

/-- The host on a tree in memory. -/
def host : Host (StateM Memory) where
  read path := fun m => (m.tree.read working path, m)
  write path text := fun m =>
    match m.tree.write working path text.toUTF8 with
    | .error e => (.error e, m)
    | .ok tree => (.ok (), { m with tree })
  out text := fun m => ((), { m with out := m.out ++ text })
  err text := fun m => ((), { m with err := m.err ++ text })

end Memory

/-- A call of the program in a directory with some files. -/
def runInMemory (files : List (String × ByteArray)) (args : List String) : UInt32 × Memory :=
  (session Memory.host args).run (.ofFiles files)

end CommandLine

end TurtleGraphics
