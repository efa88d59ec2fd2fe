import TurtleGraphics.Picture
import TurtleGraphics.Program.Enclosed
import TurtleGraphics.Text.WhiteSpace

/-!
# Statements

The text of a program is first cut into statements: a command code with the name,
the parameter texts and the body text that belong to it. Which of these parts are
read depends on the code alone. Nothing is interpreted yet; the text of a body is
kept as it stands.

Reading never gives up. A parameter list that is not closed ends at a brace or at
the end of its line, a body that is not closed ends with the text around it, and
a character that begins no statement is passed over.

## Main definitions

* `Code`: The command codes.
* `Param`, `Params`, `Body`: The parts of a statement.
* `Statement`: A code with its parts.
* `statements`: The statements of a text.
-/

namespace TurtleGraphics

/-- The codes that begin a statement. -/
inductive Code where
  | comment
  | turn (clockwise : Bool)
  | heading
  | move (penDown : Bool)
  | home
  | push
  | pop
  | step
  | color
  | width
  | flush (mode : FlushMode)
  | background
  | loop
  | condition
  | procedure
  | limit
  | assign
  deriving DecidableEq, Repr

namespace Code

/-- The code that a character stands for. -/
def ofChar? : Char → Option Code
  | '#' => some .comment
  | '+' => some (.turn false)
  | '-' => some (.turn true)
  | 'A' => some .heading
  | 'D' => some (.move true)
  | 'M' => some (.move false)
  | 'H' => some .home
  | '[' => some .push
  | ']' => some .pop
  | 'S' => some .step
  | 'C' => some .color
  | 'W' => some .width
  | 'E' => some (.flush .plain)
  | 'Z' => some (.flush .close)
  | 'F' => some (.flush .fill)
  | 'B' => some .background
  | 'R' => some .loop
  | '?' => some .condition
  | '@' => some .procedure
  | '!' => some .limit
  | '$' => some .assign
  | _ => none

/-- Whether a name follows the code. -/
def hasName : Code → Bool
  | .procedure | .assign => true
  | _ => false

/-- Whether parameters can follow. -/
def hasParams : Code → Bool
  | .comment | .home | .push | .pop | .flush _ => false
  | _ => true

/-- Whether a body can follow. -/
def hasBody : Code → Bool
  | .loop | .condition | .procedure => true
  | _ => false

end Code

/-- The text of one parameter without the white space around it, and the place
    of the text with it. -/
structure Param where
  text : List Char
  span : Span

/-- How a parameter list ended. -/
inductive ListEnd where
  /-- As it should, or there was no list. -/
  | proper
  /-- A closing bracket stood there without a list before it. -/
  | unopened
  /-- The list was not closed; the place is that of all of it. -/
  | unclosed (span : Span)

/-- The parameters of a statement. -/
structure Params where
  items : List Param := []
  ending : ListEnd := .proper

/-- The text of a body: where it starts, and whether it was closed. -/
structure Block where
  start : Nat
  text : List Char
  closed : Bool

namespace Block

/-- Where the text of the body ends. -/
def stop (b : Block) : Nat := b.start + b.text.length

/-- The place of the opening brace and the text after it. -/
def openSpan (b : Block) : Span := ⟨b.start - 1, b.stop⟩

/-- The place of the body with its braces. -/
def span (b : Block) : Span := ⟨b.start - 1, b.stop + if b.closed then 1 else 0⟩

end Block

/-- The body of a statement. -/
inductive Body where
  | absent
  /-- A closing brace stood there without an opening one: an empty body. -/
  | unopened
  | block (b : Block)

/-- Cuts text at the commas outside all brackets. Each piece comes with the
    place where it starts; `taken` holds the current one, latest character
    first. -/
def pieces : (depth start : Nat) → (taken : List Char) → List Char → List (Nat × List Char)
  | _, start, taken, [] => [(start, taken.reverse)]
  | depth, start, taken, c :: rest =>
    if c = ',' ∧ depth = 0 then
      (start, taken.reverse) :: pieces 0 (start + taken.length + 1) [] rest
    else
      let depth := if c = '(' then depth + 1 else if c = ')' then depth - 1 else depth
      pieces depth start (c :: taken) rest

/-- A piece of a parameter list as a parameter, unless it is blank. -/
def Param.ofPiece? (piece : Nat × List Char) : Option Param :=
  let text := Text.trim piece.2
  if text.isEmpty then none else some ⟨text, ⟨piece.1, piece.1 + piece.2.length⟩⟩

/-- The parameters in the text of a list that starts at a place. -/
def Param.ofList (start : Nat) (text : List Char) : List Param :=
  (pieces 0 start [] text).filterMap Param.ofPiece?

/-- Braces and the end of the line end a parameter list that is not closed. -/
def endsList (c : Char) : Bool := c == '\x7b' || c == '\x7d' || c == '\n'

namespace Cursor

/-- A name, if there is one, with the spacing before it. -/
def readName (c : Cursor) : Option String × Cursor :=
  let c := c.skip isSpacing
  let name := c.run isNameChar
  (if name.isEmpty then none else some (String.ofList name), c.skip isNameChar)

/-- A parameter list, if there is one, with the spacing before it. A closing
    bracket or a comma in its place is passed over. -/
def readParams (c : Cursor) : Params × Cursor :=
  let head := c.skip isSpacing
  match head.rest with
  | '(' :: rest =>
    let start := head.pos + 1
    let e := Enclosed.read .round endsList rest
    let ending := if e.closed then .proper else .unclosed ⟨c.pos, start + e.inside.length⟩
    (⟨Param.ofList start e.inside, ending⟩, ⟨start + e.length, e.rest⟩)
  | ')' :: _ => (⟨[], .unopened⟩, head.advance 1)
  | ',' :: _ => ({}, head.advance 1)
  | _ => ({}, head)

/-- A body, if there is one, with the blanks before it. -/
def readBody (c : Cursor) : Body × Cursor :=
  let head := c.skip isBlank
  match head.rest with
  | '\x7b' :: rest =>
    let start := head.pos + 1
    let e := Enclosed.read .curly (fun _ => false) rest
    (.block ⟨start, e.inside, e.closed⟩, ⟨start + e.length, e.rest⟩)
  | '\x7d' :: _ => (.unopened, head.advance 1)
  | _ => (.absent, head)

/-- Past the end of the line. -/
def skipLine (c : Cursor) : Cursor := (c.skip (· != '\n')).advance 1

end Cursor

/-- A command code with the parts that belong to it, and the place of it all. -/
structure Statement where
  code : Code
  name : Option String
  params : Params
  body : Body
  span : Span

/-- The statement whose code stands just before `c`. -/
def Statement.read (code : Code) (c : Cursor) : Statement × Cursor :=
  let (name, c₁) := if code.hasName then c.readName else (none, c)
  let (params, c₂) := if code.hasParams then c₁.readParams else ({}, c₁)
  let (body, c₃) := if code.hasBody then c₂.readBody else (.absent, c₂)
  let c₄ := if code = .comment then c₃.skipLine else c₃
  (⟨code, name, params, body, ⟨c.pos - 1, c₄.pos⟩⟩, c₄)

/-- What a text is cut into. -/
inductive Item where
  | statement (s : Statement)
  /-- A character that begins no statement. -/
  | unknown (c : Char) (pos : Nat)

/-- What begins with the character `ch` just before `c`. A blank is nothing. -/
def Item.read (ch : Char) (c : Cursor) : Option Item × Cursor :=
  match Code.ofChar? ch with
  | some code =>
    let (s, c) := Statement.read code c
    (some (.statement s), c)
  | none => (if isBlank ch then none else some (.unknown ch (c.pos - 1)), c)

-- Reading never goes back: each part leaves no more text than it was given. That
-- is what ends the loop over the statements below.

theorem Cursor.readName_rest_length_le (c : Cursor) :
    c.readName.2.rest.length ≤ c.rest.length :=
  Nat.le_trans (skip_rest_length_le _ _) (skip_rest_length_le _ _)

theorem Cursor.readParams_rest_length_le (c : Cursor) :
    c.readParams.2.rest.length ≤ c.rest.length := by
  have h := skip_rest_length_le isSpacing c
  unfold readParams
  simp only
  split
  next rest heq =>
    have := Enclosed.read_rest_length_le .round endsList rest
    simp only [heq, List.length_cons] at h
    simp only
    omega
  · exact Nat.le_trans (advance_rest_length_le _ _) h
  · exact Nat.le_trans (advance_rest_length_le _ _) h
  · exact h

theorem Cursor.readBody_rest_length_le (c : Cursor) :
    c.readBody.2.rest.length ≤ c.rest.length := by
  have h := skip_rest_length_le isBlank c
  unfold readBody
  simp only
  split
  next rest heq =>
    have := Enclosed.read_rest_length_le .curly (fun _ => false) rest
    simp only [heq, List.length_cons] at h
    simp only
    omega
  · exact Nat.le_trans (advance_rest_length_le _ _) h
  · exact h

theorem Cursor.skipLine_rest_length_le (c : Cursor) : c.skipLine.rest.length ≤ c.rest.length :=
  Nat.le_trans (advance_rest_length_le _ _) (skip_rest_length_le _ _)

theorem Statement.read_rest_length_le (code : Code) (c : Cursor) :
    (Statement.read code c).2.rest.length ≤ c.rest.length := by
  have step₁ : (if code.hasName then c.readName else (none, c)).2.rest.length ≤ c.rest.length := by
    split
    · exact c.readName_rest_length_le
    · exact Nat.le_refl _
  have step₂ : ∀ c : Cursor,
      (if code.hasParams then c.readParams else ({}, c)).2.rest.length ≤ c.rest.length := by
    intro c
    split
    · exact c.readParams_rest_length_le
    · exact Nat.le_refl _
  have step₃ : ∀ c : Cursor,
      (if code.hasBody then c.readBody else (.absent, c)).2.rest.length ≤ c.rest.length := by
    intro c
    split
    · exact c.readBody_rest_length_le
    · exact Nat.le_refl _
  have step₄ : ∀ c : Cursor,
      (if code = .comment then c.skipLine else c).rest.length ≤ c.rest.length := by
    intro c
    split
    · exact c.skipLine_rest_length_le
    · exact Nat.le_refl _
  exact Nat.le_trans (step₄ _) (Nat.le_trans (step₃ _) (Nat.le_trans (step₂ _) step₁))

theorem Item.read_rest_length_le (ch : Char) (c : Cursor) :
    (Item.read ch c).2.rest.length ≤ c.rest.length := by
  unfold Item.read
  split
  · exact Statement.read_rest_length_le _ c
  · exact Nat.le_refl _

/-- Cuts text into statements; `done` holds those before it, latest first. -/
def statementsFrom (done : List Item) (pos : Nat) : List Char → List Item
  | [] => done.reverse
  | ch :: rest =>
    let r := Item.read ch ⟨pos + 1, rest⟩
    statementsFrom (r.1.toList ++ done) r.2.pos r.2.rest
termination_by text => text.length
decreasing_by exact Nat.lt_succ_of_le (Item.read_rest_length_le ch ⟨pos + 1, rest⟩)

/-- The statements of a text that starts at a place. -/
def statements (start : Nat) (text : List Char) : List Item := statementsFrom [] start text

end TurtleGraphics
