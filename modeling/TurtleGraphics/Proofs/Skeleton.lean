import TurtleGraphics.Program.Parse
import TurtleGraphics.Proofs.Brackets

/-!
# Skeletons of Programs

The grammar of the language, from the side of the writer. A skeleton is a tree of
statements whose parameters are texts, and it carries what makes its texts fit for
their places, so that every skeleton can be written down. Beside the way it is written
stands what is meant by it: one command for each node, and the problems that its
parameter texts have in themselves.

A parameter text is taken as it is. It need not be an expression, except for the value
of an assignment; what is required is that it ends where it should: its brackets are
balanced, its commas stand inside of them, and it has no braces and no ends of lines.

## Main definitions

* `ParamText`, `ValueText`, `Name`: The texts of a skeleton.
* `Plain`: The codes that have neither a name nor a body.
* `Node`: The nodes of a skeleton.
* `Node.write`: A node as text.
* `Node.nesting`: How deep its bodies are nested.
* `Node.command`: The command meant by a node.
* `Node.causes`: The problems in its parameter texts.

## Theorems

* `Compounding.writeAll`: What holds of the parts of a written skeleton holds of it.
* `upperCase_writeAll`: A written skeleton is in upper case.
-/

namespace TurtleGraphics

/-- The text of a parameter. -/
structure ParamText where
  text : List Char
  nonempty : text ≠ []
  upper : Text.upperCase text = text
  trimmed : Text.trim text = text
  balanced : Balanced .round text
  commas : Covered .round 0 ',' text
  inLine : ∀ c ∈ text, c ≠ '\x7b' ∧ c ≠ '\x7d' ∧ c ≠ '\n'

namespace ParamText

/-- The expression, if the text is one. -/
def expression (p : ParamText) : Option Expression := (Expression.parse p.text).1

/-- The problems of the text as an expression. -/
def problems (p : ParamText) : List Fault := (Expression.parse p.text).2

/-- The name of a formal parameter: the text, less a dollar sign at its beginning. -/
def formal (p : ParamText) : Option String :=
  if isName p.text then
    some (String.ofList (if p.text.head? = some '$' then p.text.tail else p.text))
  else none

/-- The problem of the text as a name. -/
def formalProblems (p : ParamText) : List Fault :=
  if isName p.text then [] else [.notIdentifier (String.ofList p.text)]

end ParamText

/-- The text of a value that is assigned. -/
structure ValueText extends ParamText where
  parses : (Expression.parse text).1.isSome = true

def ValueText.value (v : ValueText) : Expression := (Expression.parse v.text).1.get v.parses

/-- The name of a procedure or a variable. -/
structure Name where
  chars : List Char
  nonempty : chars ≠ []
  allowed : ∀ c ∈ chars, isNameChar c = true
  upper : Text.upperCase chars = chars

def Name.string (name : Name) : String := String.ofList name.chars

/-- The codes that have neither a name nor a body. -/
inductive Plain where
  | turn (clockwise : Bool)
  | heading
  | move (penDown : Bool)
  | home
  | push
  | pop
  | step
  | color
  | width
  | flush (mode : FlushMode)
  | background
  | limit

namespace Plain

/-- The character of a code. -/
def symbol : Plain → Char
  | .turn false => '+'
  | .turn true => '-'
  | .heading => 'A'
  | .move true => 'D'
  | .move false => 'M'
  | .home => 'H'
  | .push => '['
  | .pop => ']'
  | .step => 'S'
  | .color => 'C'
  | .width => 'W'
  | .flush .plain => 'E'
  | .flush .close => 'Z'
  | .flush .fill => 'F'
  | .background => 'B'
  | .limit => '!'

/-- Whether parameters are written after the code. -/
def takesParams : Plain → Bool
  | .home | .push | .pop | .flush _ => false
  | _ => true

/-- The instruction meant by a code with the expressions of its parameters. -/
def instruction (p : Plain) (es : List (Option Expression)) : Instruction :=
  match p with
  | .turn clockwise => .turn es.head?.join clockwise
  | .heading => .heading (.ofOption es.head?.join 0.0)
  | .move penDown =>
    -- One parameter is a distance, two are a position.
    match es with
    | [] => .forward none penDown
    | [distance] => .forward (some (.ofOption distance 0.0)) penDown
    | x :: y :: _ => .moveTo (.ofOption x 0.0) (.ofOption y 0.0) penDown
  | .home => .moveTo (.constant 0.0) (.constant 0.0) false
  | .push => .push
  | .pop => .pop
  | .step => .step (.ofOption es.head?.join 20.0)
  | .color => .color (.ofExpressions (es.filterMap id))
  | .width => .width (.ofOption es.head?.join 1.0)
  | .flush mode => .flush mode
  | .background => .background (.ofExpressions (es.filterMap id))
  | .limit => .limit (.ofOption es.head?.join 100.0)

/-- The parameters that a code looks at. -/
def examined (p : Plain) (params : List ParamText) : List ParamText :=
  match p with
  | .turn _ | .heading | .step | .width | .limit => params.take 1
  | .move _ | .color | .background => params
  | .home | .push | .pop | .flush _ => []

end Plain

/-- The nodes of a skeleton. -/
inductive Node where
  | plain (code : Plain) (params : List ParamText)
  | assign (name : Name) (value : ValueText) (others : List ParamText)
  | loop (params : List ParamText) (body : List Node)
  | condition (params : List ParamText) (body : List Node)
  | define (name : Name) (params : List ParamText) (body : List Node)
  | call (name : Name) (params : List ParamText)

/-- Parameter texts with commas between them. -/
def joined (params : List ParamText) : List Char :=
  [','].intercalate (params.map ParamText.text)

theorem joined_singleton (p : ParamText) : joined [p] = p.text := List.intercalate_singleton

theorem joined_cons_cons (p q : ParamText) (params : List ParamText) :
    joined (p :: q :: params) = p.text ++ ([','] ++ joined (q :: params)) := by
  rw [joined, List.map_cons, List.map_cons, List.intercalate_cons_cons, List.append_assoc]
  rfl

/-- Parameters as text. -/
def writeParams (params : List ParamText) : List Char := '(' :: (joined params ++ [')'])

/-- The text of a body between its braces. -/
def inBraces (text : List Char) : List Char := '\x7b' :: (text ++ ['\x7d'])

mutual

/-- A node as text: its code, its name, its parameters and its body. -/
def Node.write : Node → List Char
  | .plain code params => code.symbol :: if code.takesParams then writeParams params else []
  | .assign name value others =>
    '$' :: (name.chars ++ writeParams (value.toParamText :: others))
  | .loop params body => 'R' :: (writeParams params ++ inBraces (writeAll body))
  | .condition params body => '?' :: (writeParams params ++ inBraces (writeAll body))
  | .define name params body =>
    '@' :: (name.chars ++ (writeParams params ++ inBraces (writeAll body)))
  | .call name params => '@' :: (name.chars ++ writeParams params)

/-- A skeleton as text. -/
def writeAll : List Node → List Char
  | [] => []
  | n :: nodes => n.write ++ writeAll nodes

end

mutual

/-- How deep the bodies of a node are nested. -/
def Node.nesting : Node → Nat
  | .loop _ body | .condition _ body | .define _ _ body => nestingAll body + 1
  | _ => 0

def nestingAll : List Node → Nat
  | [] => 0
  | n :: nodes => max n.nesting (nestingAll nodes)

end

/-- The first parameter as an argument. -/
def firstArg (params : List ParamText) (default : Scalar) : Arg :=
  .ofOption (params.map ParamText.expression).head?.join default

mutual

/-- The command meant by a node. -/
def Node.command : Node → Command
  | .plain code params => .basic (code.instruction (params.map ParamText.expression))
  | .assign name value _ => .basic (.assign name.string (.ofOption (some value.value) 0.0))
  | .loop params body => .loop (firstArg params 0.0) (commandAll body)
  | .condition params body => .condition (firstArg params 0.0) (commandAll body)
  | .define name params body =>
    .define name.string (params.map ParamText.formal) (commandAll body)
  | .call name params =>
    .call name.string (params.map fun p => .ofOption p.expression 0.0)

def commandAll : List Node → List Command
  | [] => []
  | n :: nodes => n.command :: commandAll nodes

end

mutual

/-- The problems in the parameter texts of a node that are looked at, in order. -/
def Node.causes : Node → List Fault
  | .plain code params => (code.examined params).flatMap ParamText.problems
  | .assign _ value _ => value.problems
  | .loop params body | .condition params body =>
    (params.take 1).flatMap ParamText.problems ++ causeAll body
  -- Formal parameters are names, and they are looked at last.
  | .define _ params body => causeAll body ++ params.flatMap ParamText.formalProblems
  | .call _ params => params.flatMap ParamText.problems

def causeAll : List Node → List Fault
  | [] => []
  | n :: nodes => n.causes ++ causeAll nodes

end

theorem commandAll_eq_map (nodes : List Node) : commandAll nodes = nodes.map Node.command := by
  induction nodes with
  | nil => simp only [commandAll, List.map_nil]
  | cons n nodes ih => rw [commandAll, ih, List.map_cons]

theorem causeAll_eq_flatMap (nodes : List Node) : causeAll nodes = nodes.flatMap Node.causes := by
  induction nodes with
  | nil => simp only [causeAll, List.flatMap_nil]
  | cons n nodes ih => rw [causeAll, ih, List.flatMap_cons]

/-- The characters that stand for a code. -/
def codeMarks : List Char :=
  ['+', '-', 'A', 'D', 'M', 'H', '[', ']', 'S', 'C', 'W', 'E', 'Z', 'F', 'B', '!', '$', 'R', '?',
    '@']

theorem Plain.symbol_mem_codeMarks (code : Plain) : code.symbol ∈ codeMarks := by
  cases code with
  | turn clockwise => cases clockwise <;> decide
  | move penDown => cases penDown <;> decide
  | flush mode => cases mode <;> decide
  | _ => decide

/-- A node begins with its code. -/
theorem Node.exists_write_eq (n : Node) : ∃ c ∈ codeMarks, ∃ rest, n.write = c :: rest := by
  cases n with
  | plain code params => exact ⟨code.symbol, code.symbol_mem_codeMarks, _, by rw [Node.write]⟩
  | assign => exact ⟨'$', by decide, _, by rw [Node.write]⟩
  | loop => exact ⟨'R', by decide, _, by rw [Node.write]⟩
  | condition => exact ⟨'?', by decide, _, by rw [Node.write]⟩
  | define | call => exact ⟨'@', by decide, _, by rw [Node.write]⟩

/-- What holds of the parts of a written skeleton, and of what is put together from
    parts of which it holds. -/
structure Compounding (P : List Char → Prop) : Prop where
  nil : P []
  append : ∀ {s t : List Char}, P s → P t → P (s ++ t)
  code : ∀ c ∈ codeMarks, P [c]
  list : ∀ c ∈ ['(', ',', ')'], P [c]
  name : ∀ name : Name, P name.chars
  param : ∀ p : ParamText, P p.text
  inBraces : ∀ {s : List Char}, P s → P (inBraces s)

namespace Compounding

variable {P : List Char → Prop} (h : Compounding P)
include h

theorem joined (params : List ParamText) : P (joined params) := by
  induction params with
  | nil => exact h.nil
  | cons p params ih =>
      cases params with
      | nil =>
          rw [joined_singleton]
          exact h.param p
      | cons q params =>
          rw [joined_cons_cons]
          exact h.append (h.param p) (h.append (h.list ',' (by decide)) ih)

theorem writeParams (params : List ParamText) : P (writeParams params) :=
  h.append (h.list '(' (by decide)) (h.append (h.joined params) (h.list ')' (by decide)))

mutual

theorem write : (n : Node) → P n.write
  | .plain code params => by
      have hrest : P (if code.takesParams then TurtleGraphics.writeParams params else []) := by
        split
        · exact h.writeParams params
        · exact h.nil
      rw [Node.write]
      exact h.append (h.code _ code.symbol_mem_codeMarks) hrest
  | .assign name value others => by
      rw [Node.write]
      exact h.append (h.code '$' (by decide)) (h.append (h.name name) (h.writeParams _))
  | .loop params body => by
      rw [Node.write]
      exact h.append (h.code 'R' (by decide))
        (h.append (h.writeParams params) (h.inBraces (writeAll body)))
  | .condition params body => by
      rw [Node.write]
      exact h.append (h.code '?' (by decide))
        (h.append (h.writeParams params) (h.inBraces (writeAll body)))
  | .define name params body => by
      rw [Node.write]
      exact h.append (h.code '@' (by decide))
        (h.append (h.name name) (h.append (h.writeParams params) (h.inBraces (writeAll body))))
  | .call name params => by
      rw [Node.write]
      exact h.append (h.code '@' (by decide)) (h.append (h.name name) (h.writeParams params))

/-- It holds of every written skeleton. -/
theorem writeAll : (nodes : List Node) → P (writeAll nodes)
  | [] => by
      rw [TurtleGraphics.writeAll]
      exact h.nil
  | n :: nodes => by
      rw [TurtleGraphics.writeAll]
      exact h.append (write n) (writeAll nodes)

end

end Compounding

/-- Nothing changes when what is written is put into upper case. -/
theorem compounding_upperCase : Compounding fun text => Text.upperCase text = text where
  nil := rfl
  append := by
    intro s t hs ht
    rw [Text.upperCase_append, hs, ht]
  code := by
    intro c hc
    have hall : codeMarks.all fun c => Text.upperCase [c] = [c] := by decide
    exact of_decide_eq_true (List.all_eq_true.mp hall c hc)
  list := by
    intro c hc
    have hall : ['(', ',', ')'].all fun c => Text.upperCase [c] = [c] := by decide
    exact of_decide_eq_true (List.all_eq_true.mp hall c hc)
  name := Name.upper
  param := ParamText.upper
  inBraces := by
    intro s hs
    -- Braces have no case.
    have hs' : Text.upperCase (s ++ ['\x7d']) = s ++ ['\x7d'] := by
      rw [Text.upperCase_append, hs]
      rfl
    exact congrArg ('\x7b' :: ·) hs'

/-- A written skeleton is in upper case. -/
theorem upperCase_writeAll (nodes : List Node) :
    Text.upperCase (writeAll nodes) = writeAll nodes :=
  compounding_upperCase.writeAll nodes

end TurtleGraphics
