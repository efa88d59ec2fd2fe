import TurtleGraphics.Expression.Token

/-!
# Tokens in Context

What a token means can depend on its neighbours. An operator `!`, `<` or `>`
directly before `=` forms one comparison with it. A `+` or `-` is a sign unless
an operand ends before it. Two operands side by side are multiplied, unless both
are numbers.

All three rules are applied in one walk over the tokens, which remembers only
the last token it has produced. That is enough because the first rule produces
neither signs nor operands, so it cannot disturb what the other two decide.

## Main definitions

* `Token.comparison?`: The comparison that two tokens form.
* `Token.placed`: A token after another, read as a sign where it is one.
* `Token.written`: A token with the multiplication sign left out before it.
* `inContext`: The tokens of a text with their neighbours taken into account.
* `tokenize`: The tokens of a text in context.
-/

namespace TurtleGraphics

namespace Token

/-- A `+` or `-` as the sign it is when no operand ends before it. -/
def asSign : Token → Token
  | .operator (.binary .add) => .operator (.unary .plus)
  | .operator (.binary .subtract) => .operator (.unary .minus)
  | t => t

/-- Whether an operand ends with the last token, if there is one. -/
def operandBefore : Option Token → Bool
  | some t => t.endsOperand
  | none => false

/-- Whether a multiplication sign is left out between two tokens. -/
def multiplies (last : Option Token) (t : Token) : Bool :=
  match last with
  | some l => l.endsOperand && t.startsOperand && !(l.isNumber && t.isNumber)
  | none => false

/-- A token after `last`, read as a sign where it is one. -/
def placed (last : Option Token) (t : Token) : Token := if operandBefore last then t else t.asSign

/-- A token after `last`, with the multiplication sign that was left out. -/
def written (last : Option Token) (t : Token) : List Token :=
  if multiplies last t then [.operator (.binary .multiply), t] else [t]

/-- The comparison that two tokens side by side form. -/
def comparison? : Token → Token → Option Token
  | .operator op, .operator (.binary .equal) => op.beforeEquals?.map (.operator ∘ .binary)
  | _, _ => none

/-- The tokens of a list in the context of the token `last` before them. -/
def inContextAfter (last : Option Token) : List Token → List Token
  | [] => []
  | [t] => written last (placed last t)
  | t :: u :: rest =>
    match comparison? t u with
    | some comparison => comparison :: inContextAfter (some comparison) rest
    | none => written last (placed last t) ++ inContextAfter (some (placed last t)) (u :: rest)
termination_by structural tokens => tokens

end Token

/-- The tokens of a text with their neighbours taken into account. -/
def inContext (tokens : List Token) : List Token := Token.inContextAfter none tokens

/-- The tokens of an expression text, with the problems met on the way. -/
def tokenize (text : List Char) : Scanned :=
  let s := scan text
  { s with tokens := inContext s.tokens }

end TurtleGraphics
