import TurtleGraphics.Proofs.Causes

/-!
# All Commands of a Program

A program is a tree of commands, and what is asked of a command is often asked of the
commands in its body as well, and of those in their bodies. `Command.Everywhere` asks it of
all of them. Each command of the tree is the command of one statement, somewhere in the
text, so it suffices to look at single statements (`everywhere_of_mem_commandsAt`).

## Main definitions

* `Command.body`: The commands directly inside of a command.
* `Command.Everywhere`: Something holds of a command and of all commands inside of it.
* `Statement.Gives`: The commands that a statement can give.

## Theorems

* `Statement.gives_command`: Which command a statement gives.
* `Statement.body_of_command`: Where the body of a command comes from.
* `everywhere_of_mem_commandsAt`, `everywhere_of_mem_parse`: What holds of the commands of
  statements holds everywhere in a program.
-/

namespace TurtleGraphics

/-- The commands directly inside of a command. -/
def Command.body : Command → List Command
  | .loop _ body | .condition _ body | .define _ _ body => body
  | .basic _ | .call _ _ => []

/-- Something holds of a command and of all commands inside of it, however deep. -/
inductive Command.Everywhere (P : Command → Prop) : Command → Prop where
  | intro {c : Command} (here : P c) (inside : ∀ d ∈ c.body, Everywhere P d) : Everywhere P c

namespace Command.Everywhere

variable {P : Command → Prop} {c : Command}

theorem here (h : c.Everywhere P) : P c := by
  cases h with
  | intro here inside => exact here

theorem inside (h : c.Everywhere P) : ∀ d ∈ c.body, d.Everywhere P := by
  cases h with
  | intro here inside => exact inside

end Command.Everywhere

section

variable {nested : Block → Noted (List Command)} {s : Statement} {c : Command}

/-- The commands of a body are those of its block, if it has one. -/
theorem Body.commands_eq {body : Body} {span : Span} {commands : List Command}
    (h : (body.commands nested span).value = some commands) :
    commands = [] ∨ ∃ b, body = .block b ∧ commands = (nested b).value := by
  cases body with
  | absent => cases h
  | unopened =>
      cases h
      exact .inl rfl
  | block b =>
      cases h
      exact .inr ⟨b, rfl, rfl⟩

/-- The commands that a statement can give, with the parts of the statement that they are
    made from. -/
inductive Statement.Gives (nested : Block → Noted (List Command)) (s : Statement) :
    Command → Prop where
  | basic {i : Instruction} (h : s.instruction.value = some i) : Gives nested s (.basic i)
  | loop {body : List Command} (h : (s.body.commands nested s.span).value = some body) :
      Gives nested s (.loop (s.params.firstArg 0.0).value body)
  | condition {body : List Command} (h : (s.body.commands nested s.span).value = some body) :
      Gives nested s (.condition (s.params.firstArg 0.0).value body)
  | define {name : String} {body : List Command} (hname : s.name = some name)
      (h : (s.body.commands nested s.span).value = some body) :
      Gives nested s (.define name s.params.names.value body)
  | call {name : String} (hname : s.name = some name) :
      Gives nested s (.call name (s.params.args 0.0).value)
  | assign {name : String} {value : Expression} (hname : s.name = some name)
      (h : s.params.firstExpression.value = some value) :
      Gives nested s (.basic (.assign name (.ofOption (some value) 0.0)))

theorem Statement.gives_command (hc : (s.command nested).value = some c) : s.Gives nested c := by
  simp only [Statement.command, Noted.value_bind] at hc
  cases hcode : s.code with
  | loop =>
      rw [hcode] at hc
      rcases Option.map_eq_some_iff.mp hc with ⟨body, hbody, rfl⟩
      exact .loop hbody
  | condition =>
      rw [hcode] at hc
      simp only [Noted.value_bind] at hc
      cases hbody : (s.body.commands nested s.span).value with
      | none =>
          rw [hbody] at hc
          cases hc
      | some body =>
          rw [hbody] at hc
          cases hc
          exact .condition hbody
  | procedure =>
      rw [hcode] at hc
      simp only [Noted.value_bind, Statement.procedure] at hc
      cases hname : s.name with
      | none =>
          rw [hname] at hc
          cases hc
      | some name =>
          rw [hname] at hc
          cases hbody : (s.body.commands nested s.span).value with
          | none =>
              rw [hbody] at hc
              cases hc
              exact .call hname
          | some body =>
              rw [hbody] at hc
              cases hc
              exact .define hname hbody
  | assign =>
      rw [hcode] at hc
      simp only [Statement.assignment, Noted.value_bind] at hc
      split at hc
      next name value hname hvalue =>
        cases hc
        exact .assign hname hvalue
      next => cases hc
      next => cases hc
  | _ =>
      rw [hcode] at hc
      rcases Option.map_eq_some_iff.mp hc with ⟨i, hi, rfl⟩
      exact .basic hi

/-- What is inside of the command of a statement is what is in the block of the
    statement. -/
theorem Statement.body_of_command (hc : (s.command nested).value = some c) :
    c.body = [] ∨ ∃ b, s.body = .block b ∧ c.body = (nested b).value := by
  cases Statement.gives_command hc with
  | loop h | condition h | define _ h => exact Body.commands_eq h
  | basic | call | assign => exact .inl rfl

theorem exists_statement_of_mem_commandsOf {items : List Item}
    (hc : c ∈ (commandsOf nested items).value) :
    ∃ s, .statement s ∈ items ∧ (s.command nested).value = some c := by
  rw [value_commandsOf] at hc
  rcases List.mem_filterMap.mp hc with ⟨item, hitem, hvalue⟩
  cases item with
  | statement s => exact ⟨s, hitem, hvalue⟩
  | unknown ch pos => cases hvalue

end

/-- What holds of the command of every statement holds everywhere in a text, by induction on
    how deep bodies may be nested. Something can be asked of the text, if it holds of the text
    of every body as well. -/
theorem everywhere_of_mem_commandsAt {P : Command → Prop} {Q : List Char → Prop}
    (hP : ∀ (nested : Block → Noted (List Command)) (start : Nat) (text : List Char)
      (s : Statement) (c : Command), Q text → .statement s ∈ statements start text →
        (s.command nested).value = some c → P c)
    (hQ : ∀ (start : Nat) (text : List Char) (s : Statement) (b : Block), Q text →
      .statement s ∈ statements start text → s.body = .block b → Q b.text)
    {room start : Nat} {text : List Char} {c : Command} (htext : Q text)
    (h : c ∈ (commandsAt room start text).value) : c.Everywhere P := by
  induction room generalizing start text c with
  | zero =>
      rw [commandsAt_eq] at h
      rcases exists_statement_of_mem_commandsOf h with ⟨s, hs, hc⟩
      refine .intro (hP _ start text s c htext hs hc) fun d hd => ?_
      -- A body that is nested too deep is left empty.
      rcases Statement.body_of_command hc with hbody | ⟨b, -, hbody⟩ <;>
        exact absurd (hbody ▸ hd) List.not_mem_nil
  | succ room ih =>
      rw [commandsAt_eq] at h
      rcases exists_statement_of_mem_commandsOf h with ⟨s, hs, hc⟩
      refine .intro (hP _ start text s c htext hs hc) fun d hd => ?_
      rcases Statement.body_of_command hc with hbody | ⟨b, hb, hbody⟩
      · exact absurd (hbody ▸ hd) List.not_mem_nil
      · exact ih (hQ start text s b htext hs hb) (hbody ▸ hd)

theorem everywhere_of_mem_parse {P : Command → Prop}
    (hP : ∀ (nested : Block → Noted (List Command)) (start : Nat) (text : List Char)
      (s : Statement) (c : Command), .statement s ∈ statements start text →
        (s.command nested).value = some c → P c)
    {source : String} {c : Command} (h : c ∈ (Program.parse source).value) : c.Everywhere P :=
  everywhere_of_mem_commandsAt (Q := fun _ => True) (fun nested start text s c _ =>
    hP nested start text s c) (fun _ _ _ _ _ _ _ => trivial) trivial h

end TurtleGraphics
