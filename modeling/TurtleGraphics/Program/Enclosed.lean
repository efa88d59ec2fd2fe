import TurtleGraphics.Alphabet
import TurtleGraphics.Fault

/-!
# Positions and Brackets in Program Text

Reading a program goes through its characters with a cursor: the characters that
are left, and how many came before them. Parameter lists and bodies are read up
to the bracket that closes them, with inner brackets of the same sort counted.

## Main definitions

* `Cursor`: A place in the program text.
* `Cursor.skip`: Passing over characters of a class.
* `Enclosed`: Text between brackets.
* `Enclosed.read`: The text up to the closing bracket.

## Theorems

* `Cursor.run_append_skip_rest`: Passing over characters loses none of them.
* `Enclosed.readFrom_append`: Reading between brackets loses nothing.
-/

namespace TurtleGraphics

/-- A place in the program text: the number of characters before it and the
    characters after it. -/
structure Cursor where
  pos : Nat
  rest : List Char

namespace Cursor

/-- Past the next `n` characters. -/
def advance (c : Cursor) (n : Nat) : Cursor := ⟨c.pos + n, c.rest.drop n⟩

/-- The characters of a class from here on. -/
def run (p : Char → Bool) (c : Cursor) : List Char := c.rest.takeWhile p

/-- Past the characters of a class. -/
def skip (p : Char → Bool) (c : Cursor) : Cursor :=
  ⟨c.pos + (c.run p).length, c.rest.dropWhile p⟩

theorem run_append_skip_rest (p : Char → Bool) (c : Cursor) :
    c.run p ++ (c.skip p).rest = c.rest :=
  List.takeWhile_append_dropWhile

theorem skip_rest_length_le (p : Char → Bool) (c : Cursor) :
    (c.skip p).rest.length ≤ c.rest.length :=
  (List.dropWhile_suffix p).length_le

theorem advance_rest_length_le (c : Cursor) (n : Nat) :
    (c.advance n).rest.length ≤ c.rest.length := by
  simp only [advance, List.length_drop]
  omega

end Cursor

/-- Blanks that do not end the line. -/
def isSpacing (c : Char) : Bool := isBlank c && c != '\n'

/-- The text between an opening bracket and the one that closes it, whether that
    one was there, and what follows. -/
structure Enclosed where
  inside : List Char
  closed : Bool
  rest : List Char

namespace Enclosed

/-- Reads on after an opening bracket, with `depth` more brackets open and the
    characters `taken` so far, latest first. A character in `stops` ends the
    text wherever it stands. -/
def readFrom (d : Delimiter) (stops : Char → Bool) :
    (depth : Nat) → (taken : List Char) → List Char → Enclosed
  | _, taken, [] => ⟨taken.reverse, false, []⟩
  | depth, taken, c :: rest =>
    if stops c then ⟨taken.reverse, false, c :: rest⟩
    else if c = d.closing then
      match depth with
      | 0 => ⟨taken.reverse, true, rest⟩
      | depth + 1 => readFrom d stops depth (c :: taken) rest
    else readFrom d stops (if c = d.opening then depth + 1 else depth) (c :: taken) rest

/-- The text up to the bracket that closes the one just passed. -/
def read (d : Delimiter) (stops : Char → Bool) (text : List Char) : Enclosed :=
  readFrom d stops 0 [] text

/-- The number of characters of the text and its closing bracket. -/
def length (e : Enclosed) : Nat := e.inside.length + if e.closed then 1 else 0

/-- The text that closes: the closing bracket if it was there. -/
def tail (d : Delimiter) (e : Enclosed) : List Char :=
  (if e.closed then [d.closing] else []) ++ e.rest

/-- Nothing is lost: what was taken and what is read make up the text. -/
theorem readFrom_append (d : Delimiter) (stops : Char → Bool) (depth : Nat)
    (taken text : List Char) :
    (readFrom d stops depth taken text).inside ++ (readFrom d stops depth taken text).tail d =
      taken.reverse ++ text := by
  induction text generalizing depth taken with
  | nil => simp [readFrom, tail]
  | cons c rest ih =>
    unfold readFrom
    split
    · simp [tail]
    · split
      next hc =>
        split
        · simp [tail, hc]
        · rw [ih]
          simp
      · rw [ih]
        simp

theorem readFrom_rest_length_le (d : Delimiter) (stops : Char → Bool) (depth : Nat)
    (taken text : List Char) : (readFrom d stops depth taken text).rest.length ≤ text.length := by
  induction text generalizing depth taken with
  | nil => simp [readFrom]
  | cons c rest ih =>
    unfold readFrom
    split
    · simp
    · split
      · split
        · simp
        · exact Nat.le_succ_of_le (ih _ _)
      · exact Nat.le_succ_of_le (ih _ _)

theorem read_rest_length_le (d : Delimiter) (stops : Char → Bool) (text : List Char) :
    (read d stops text).rest.length ≤ text.length :=
  readFrom_rest_length_le d stops 0 [] text

end Enclosed

end TurtleGraphics
