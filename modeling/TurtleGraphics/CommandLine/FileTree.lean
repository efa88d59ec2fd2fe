import TurtleGraphics.CommandLine.FileError
import TurtleGraphics.CommandLine.Path

/-!
# A Tree of Files

Directories and files held as values, and what a path leads to among them.

Every step of a path but the last one has to lead to a directory; the first step
that does not decides how the path fails. Going up from the root stays there. The
last step decides what is read or written.

The two uses of a path differ where a slash stands at the end. A file cannot be
read that way, since it is no directory, and nothing can be created that way,
whether it is there or not.

## Main definitions

* `Place`: A place in the tree.
* `FileTree`: Directories and files.
* `FileTree.enter`: One step on the way.
* `FileTree.approach`: The way up to the last step.
* `FileTree.read`, `FileTree.write`: Access by path.

## Theorems

* `FileTree.content?_put_self`: What was put somewhere is there.
* `FileTree.content?_put_of_ne`: Other files stay as they are.
-/

namespace TurtleGraphics

namespace CommandLine

/-- A place in the tree: its name, the name of the directory it is in, and so on
    up to the root, which is the empty list. -/
abbrev Place := List String

/-- Directories, of which the root is always one, and files. -/
structure FileTree where
  directories : List Place := []
  files : List (Place × ByteArray) := []

namespace FileTree

/-- The most bytes that a name can have. -/
def maxName : Nat := 255

/-- Whether a place is a directory. -/
def isDirectory (t : FileTree) (p : Place) : Bool := p.isEmpty || t.directories.contains p

/-- The content of the file at a place. -/
def content? (t : FileTree) (p : Place) : Option ByteArray := t.files.lookup p

/-- Replaces the file at a place or adds one. -/
def put (t : FileTree) (p : Place) (content : ByteArray) : FileTree :=
  { t with files := (p, content) :: t.files.filter (·.1 != p) }

theorem lookup_filter_of_ne {p q : Place} (h : q ≠ p) (files : List (Place × ByteArray)) :
    (files.filter (·.1 != p)).lookup q = files.lookup q := by
  induction files with
  | nil => rfl
  | cons e rest ih =>
    by_cases he : e.1 = p
    · rw [List.filter_cons_of_neg (by simp [he]), ih, List.lookup_cons, he,
        beq_false_of_ne h]
    · rw [List.filter_cons_of_pos (by simp [he]), List.lookup_cons, List.lookup_cons, ih]

/-- What was put somewhere is there. -/
@[simp]
theorem content?_put_self (t : FileTree) (p : Place) (content : ByteArray) :
    (t.put p content).content? p = some content := by
  simp [content?, put]

/-- Other files stay as they are. -/
theorem content?_put_of_ne (t : FileTree) {p q : Place} (h : q ≠ p) (content : ByteArray) :
    (t.put p content).content? q = t.content? q := by
  rw [content?, put, List.lookup_cons, beq_false_of_ne h]
  exact lookup_filter_of_ne h t.files

/-- The directory that one step on the way leads to. -/
def enter (t : FileTree) (dir : Place) : Step → Except FileError Place
  | .stay => .ok dir
  | .up => .ok dir.tail
  | .into name =>
    let p := name :: dir
    if maxName < name.utf8ByteSize then .error .nameTooLong
    else if t.isDirectory p then .ok p
    else if (t.content? p).isSome then .error .notDirectory
    else .error .notFound

/-- The directory that a path leads to before its last step. -/
def approach (t : FileTree) (working : Place) (path : Path) : Except FileError Place :=
  path.steps.dropLast.foldlM t.enter (if path.absolute then [] else working)

/-- The path that a text denotes, unless the text is empty or too long. -/
def path (text : String) : Except FileError Path :=
  if text.isEmpty then .error .notFound
  else if Path.maxLength < text.utf8ByteSize then .error .nameTooLong
  else .ok (Path.ofString text)

/-- The content of the file that a path leads to. -/
def read (t : FileTree) (working : Place) (text : String) : Except FileError ByteArray := do
  let path ← FileTree.path text
  let dir ← t.approach working path
  match path.steps.getLast? with
  | some (.into name) =>
    let p := name :: dir
    if maxName < name.utf8ByteSize then .error .nameTooLong
    else if t.isDirectory p then .error .isDirectory
    else
      match t.content? p with
      | none => .error .notFound
      | some content => if path.slashed then .error .notDirectory else .ok content
  | _ => .error .isDirectory

/-- The tree with a file written where a path leads. -/
def write (t : FileTree) (working : Place) (text : String) (content : ByteArray) :
    Except FileError FileTree := do
  let path ← FileTree.path text
  let dir ← t.approach working path
  match path.steps.getLast? with
  | some (.into name) =>
    let p := name :: dir
    -- A slash at the end is refused before the name in front of it is looked at.
    if path.slashed then .error .isDirectory
    else if maxName < name.utf8ByteSize then .error .nameTooLong
    else if t.isDirectory p then .error .isDirectory
    else .ok (t.put p content)
  | _ => .error .isDirectory

end FileTree

end CommandLine

end TurtleGraphics
