import TurtleGraphics.Proofs.Grammar
import TurtleGraphics.Proofs.Places

/-!
# Bodies That Are Nested Too Deep

A program is read down to a number of levels. Bodies further inside are reported and
left empty. Here that reading is compared with one that knows no such bound and follows
bodies as far as they go.

Without the bound there is no room to do recursion on, so `commandsUncapped` recurs on
the text: a body is shorter than the text around it. That it reads every body, as it
was meant to, is `commandsUncapped_eq`.

The two readings find the same statements at every level, for statements are cut off
before anyone looks inside of their bodies. They differ in what they make of a body.
`Statement.value_command_withBody` says how a difference there is passed on: whatever is
done to the commands of a body is done to the body of the command, and to nothing else.
So a body that is left empty leaves no trace in what comes after it, and going down
level by level the bounded reading is the other one, pruned.

## Main definitions

* `Command.withBody`: A command with something done to its body.
* `Command.nesting`: How many bodies there are around a command inside of another.
* `pruned`: Commands down to a number of levels.
* `commandsUncapped`: The commands of a text, however deep bodies are nested.
* `loopsNested`, `loopNodes`: Loops inside each other, as commands and as text.

## Theorems

* `nesting_le_of_mem_pruned`: Pruned commands are nested no deeper than the levels.
* `pruned_eq_self`: Commands that are nested no deeper than that are not changed.
* `commandsUncapped_eq`: Without a bound every body is read.
* `Statement.value_command_withBody`: Bodies change nothing but bodies.
* `value_commandsAt`: What is read down to a level is what there is, pruned.
* `value_parse_writeAll`: So is what is read of a written skeleton.
* `parse_eq_pruned`: The bound on nesting prunes and does nothing else.
-/

namespace TurtleGraphics

/-- A command with something done to its body, if it has one. -/
def Command.withBody (f : List Command → List Command) : Command → Command
  | .loop count body => .loop count (f body)
  | .condition test body => .condition test (f body)
  | .define name params body => .define name params (f body)
  | c => c

/-- Commands down to a number of levels, their own among them. The bodies below are
    empty. -/
def pruned : (levels : Nat) → List Command → List Command
  | 0, _ => []
  | levels + 1, commands => commands.map (Command.withBody (pruned levels))

mutual

/-- The most bodies around a command inside of this one. An empty body is around
    nothing. -/
def Command.nesting : Command → Nat
  | .basic _ | .call _ _ => 0
  | .loop _ body | .condition _ body | .define _ _ body => bodyNesting body

/-- The same with one more body, which holds the commands. -/
def bodyNesting : List Command → Nat
  | [] => 0
  | c :: rest => max (c.nesting + 1) (bodyNesting rest)

end

theorem nesting_lt_of_mem {body : List Command} {c : Command} (h : c ∈ body) :
    c.nesting < bodyNesting body := by
  induction body with
  | nil => cases h
  | cons d rest ih =>
      rw [bodyNesting]
      rcases List.mem_cons.mp h with rfl | h
      · omega
      · have hrest := ih h
        omega

theorem bodyNesting_le {body : List Command} {levels : Nat}
    (h : ∀ c ∈ body, c.nesting < levels) : bodyNesting body ≤ levels := by
  induction body with
  | nil =>
      rw [bodyNesting]
      exact Nat.zero_le _
  | cons c rest ih =>
      rcases List.forall_mem_cons.mp h with ⟨hc, hrest⟩
      have hle := ih hrest
      rw [bodyNesting]
      omega

theorem Command.nesting_withBody_le {f : List Command → List Command} {levels : Nat}
    (hf : ∀ body, ∀ c ∈ f body, c.nesting < levels) (c : Command) :
    (c.withBody f).nesting ≤ levels := by
  cases c with
  | basic i => exact Nat.zero_le _
  | call name args => exact Nat.zero_le _
  | loop count body | condition test body | define name params body =>
      rw [Command.withBody, Command.nesting]
      exact bodyNesting_le (hf body)

/-- Pruned commands are nested no deeper than the levels that are left. -/
theorem nesting_le_of_mem_pruned {levels : Nat} {commands : List Command} {c : Command}
    (h : c ∈ pruned levels commands) : c.nesting < levels := by
  induction levels generalizing commands c with
  | zero => cases h
  | succ levels ih =>
      rcases List.mem_map.mp h with ⟨d, -, rfl⟩
      have hle := d.nesting_withBody_le (f := pruned levels) fun body e he => ih he
      omega

theorem Command.withBody_eq_self {f : List Command → List Command} {c : Command}
    (h : ∀ body, bodyNesting body = c.nesting → f body = body) : c.withBody f = c := by
  cases c with
  | basic i => rfl
  | call name args => rfl
  | loop count body | condition test body | define name params body =>
      rw [Command.withBody, h body (by rw [Command.nesting])]

/-- Where no command is nested that deep, there is nothing to prune. -/
theorem pruned_eq_self {levels : Nat} {commands : List Command}
    (h : ∀ c ∈ commands, c.nesting < levels) : pruned levels commands = commands := by
  induction levels generalizing commands with
  | zero => exact (List.eq_nil_iff_forall_not_mem.mpr fun c hc => Nat.not_lt_zero _ (h c hc)).symm
  | succ levels ih =>
      -- What is inside of a body is nested one less than the command that has the body.
      refine (List.map_congr_left fun c hc => ?_).trans commands.map_id
      refine Command.withBody_eq_self fun body hbody => ih fun d hd => ?_
      have hlt := nesting_lt_of_mem hd
      have hc := h c hc
      omega

/-- The commands of a text that starts at a place, however deep bodies are nested. -/
def commandsUncapped (start : Nat) (text : List Char) : Noted (List Command) :=
  commandsWith
    (fun b => if b.text.length < text.length then commandsUncapped b.start b.text else ⟨[], []⟩)
    start text
termination_by text.length

section

variable {nested nested' : Block → Noted (List Command)}

theorem Body.commands_congr {body : Body} (h : ∀ b, body = .block b → nested b = nested' b)
    (span : Span) : body.commands nested span = body.commands nested' span := by
  cases body with
  | absent => rfl
  | unopened => rfl
  | block b => rw [Body.commands, Body.commands, h b rfl]

/-- Of the ways to find the commands of a body, a statement looks at its own body. -/
theorem Statement.command_congr {s : Statement}
    (h : ∀ b, s.body = .block b → nested b = nested' b) :
    s.command nested = s.command nested' := by
  have hbody := Body.commands_congr h s.span
  simp only [Statement.command, hbody]

theorem Item.command_congr {item : Item}
    (h : ∀ s b, item = .statement s → s.body = .block b → nested b = nested' b) :
    item.command nested = item.command nested' := by
  cases item with
  | statement s => exact Statement.command_congr fun b => h s b rfl
  | unknown c pos => rfl

/-- The commands of a text depend on the bodies that stand in it. -/
theorem commandsWith_congr {start : Nat} {text : List Char}
    (h : ∀ b : Block, b.Placed ⟨start, text⟩ → nested b = nested' b) :
    commandsWith nested start text = commandsWith nested' start text := by
  have hitems : (statements start text).map (Item.command nested) =
      (statements start text).map (Item.command nested') := by
    refine List.map_congr_left fun item hitem => Item.command_congr ?_
    rintro s b rfl hb
    exact h b ((Item.placed_of_mem_statements hitem).body b hb)
  simp only [commandsWith, Noted.traverse, hitems]

end

/-- Without a bound every body is read: each of them is shorter than the text. -/
theorem commandsUncapped_eq (start : Nat) (text : List Char) :
    commandsUncapped start text =
      commandsWith (fun b => commandsUncapped b.start b.text) start text := by
  rw [commandsUncapped]
  exact commandsWith_congr fun b hb => if_pos hb.length_lt

section

variable {nested nested' : Block → Noted (List Command)} {f : List Command → List Command}

theorem Body.value_commands (body : Body) (hnil : f [] = [])
    (h : ∀ b, (nested' b).value = f (nested b).value) (span : Span) :
    (body.commands nested' span).value = (body.commands nested span).value.map f := by
  cases body with
  | absent => rfl
  | unopened => exact congrArg some hnil.symm
  | block b => exact congrArg some (h b)

theorem Statement.value_procedure_withBody (s : Statement) (body : Option (List Command)) :
    (s.procedure (body.map f)).value = (s.procedure body).value.map (Command.withBody f) := by
  unfold Statement.procedure
  cases s.name with
  | none => rfl
  | some name => cases body <;> rfl

theorem Statement.value_assignment_withBody (s : Statement) :
    s.assignment.value = s.assignment.value.map (Command.withBody f) := by
  simp only [Statement.assignment, Noted.value_bind]
  cases s.name with
  | none => rfl
  | some name => cases s.params.firstExpression.value <;> rfl

/-- What is done to the commands of a body is done to the body of the command, and
    nothing else changes. -/
theorem Statement.value_command_withBody (s : Statement) (hnil : f [] = [])
    (h : ∀ b, (nested' b).value = f (nested b).value) :
    (s.command nested').value = (s.command nested).value.map (Command.withBody f) := by
  have hbody := s.body.value_commands hnil h s.span
  simp only [Statement.command, Noted.value_bind]
  cases s.code with
  | loop =>
      simp only [Noted.value_bind, Noted.value_pure, hbody]
      cases (s.body.commands nested s.span).value <;> rfl
  | condition =>
      simp only [Noted.value_bind, hbody]
      cases (s.body.commands nested s.span).value <;> rfl
  | procedure =>
      simp only [Noted.value_bind, hbody]
      exact s.value_procedure_withBody _
  | assign => exact s.value_assignment_withBody
  | _ =>
      simp only [Noted.value_bind, Noted.value_pure]
      cases s.instruction.value <;> rfl

theorem Item.value_command_withBody (item : Item) (hnil : f [] = [])
    (h : ∀ b, (nested' b).value = f (nested b).value) :
    (item.command nested').value = (item.command nested).value.map (Command.withBody f) := by
  cases item with
  | statement s => exact s.value_command_withBody hnil h
  | unknown c pos => rfl

theorem value_commandsOf_withBody (items : List Item) (hnil : f [] = [])
    (h : ∀ b, (nested' b).value = f (nested b).value) :
    (commandsOf nested' items).value =
      (commandsOf nested items).value.map (Command.withBody f) := by
  rw [value_commandsOf, value_commandsOf, List.map_filterMap]
  exact congrArg (List.filterMap · items) (funext fun i => i.value_command_withBody hnil h)

end

theorem pruned_nil (levels : Nat) : pruned levels [] = [] := by
  cases levels <;> rfl

/-- What is read down to a level is what there is, pruned. -/
theorem value_commandsAt (room start : Nat) (text : List Char) :
    (commandsAt room start text).value = pruned (room + 1) (commandsUncapped start text).value := by
  have hnested : ∀ b, (nestedAt room b).value =
      pruned room (commandsUncapped b.start b.text).value := by
    -- With no room left the body is empty, and so is whatever is pruned to no level.
    intro b
    cases room with
    | zero => rfl
    | succ room => exact value_commandsAt room b.start b.text
  rw [commandsAt_eq, commandsUncapped_eq]
  exact value_commandsOf_withBody _ (pruned_nil room) hnested

/-- Without a bound a written skeleton is read back, however deep its bodies are nested. -/
theorem value_commandsUncapped_writeAll (nodes : List Node) :
    (commandsUncapped 0 (writeAll nodes)).value = commandAll nodes := by
  -- A bound that neither the skeleton nor what is found comes up to makes no difference.
  let found := (commandsUncapped 0 (writeAll nodes)).value
  let room := max (nestingAll nodes) (bodyNesting found)
  have hfound : pruned (room + 1) found = found := by
    refine pruned_eq_self fun c hc => ?_
    have hlt := nesting_lt_of_mem hc
    omega
  have hread : (commandsAt room 0 (writeAll nodes)).Finds (commandAll nodes) (causeAll nodes) :=
    .of_alike (alike_commandsAt room 0 (writeAll nodes))
      (finds_commandsOf nodes room (Nat.le_max_left _ _))
  rw [← hread.value, value_commandsAt]
  exact hfound.symm

theorem value_parse (source : String) :
    (Program.parse source).value =
      pruned 201 (commandsUncapped 0 (Text.upperCase source.toList)).value :=
  value_commandsAt Program.maxNesting 0 _

theorem nesting_le_of_mem_parse {source : String} {c : Command}
    (h : c ∈ (Program.parse source).value) : c.nesting ≤ 200 := by
  rw [value_parse] at h
  exact Nat.le_of_lt_succ (nesting_le_of_mem_pruned h)

/-- A skeleton that is written down is read back down to the two hundred and first
    level. -/
theorem value_parse_writeAll (nodes : List Node) :
    (Program.parse (String.ofList (writeAll nodes))).value = pruned 201 (commandAll nodes) := by
  rw [value_parse, String.toList_ofList, upperCase_writeAll, value_commandsUncapped_writeAll]

/-- The rounds of a loop that runs once. -/
def oneText : ParamText :=
  ⟨['1'], by decide, by decide, by decide, by decide, by decide, by simp⟩

/-- Loops inside each other, each of which runs once. -/
def loopNodes : Nat → List Node
  | 0 => []
  | k + 1 => [.loop [oneText] (loopNodes k)]

/-- What they mean. -/
def loopsNested : Nat → List Command
  | 0 => []
  | k + 1 => [.loop (firstArg [oneText] 0.0) (loopsNested k)]

theorem commandAll_loopNodes (k : Nat) : commandAll (loopNodes k) = loopsNested k := by
  induction k with
  | zero => rw [loopNodes, loopsNested, commandAll]
  | succ k ih => simp only [loopNodes, loopsNested, commandAll, Node.command, ih]

theorem bodyNesting_loopsNested (k : Nat) : bodyNesting (loopsNested k) = k := by
  induction k with
  | zero => rw [loopsNested, bodyNesting]
  | succ k ih => simp only [loopsNested, bodyNesting, Command.nesting, ih, Nat.max_zero]

theorem pruned_loopsNested (levels k : Nat) :
    pruned levels (loopsNested k) = loopsNested (min levels k) := by
  induction levels generalizing k with
  | zero => rw [Nat.zero_min, pruned, loopsNested]
  | succ levels ih =>
      cases k with
      | zero => rfl
      | succ k =>
          rw [Nat.succ_min_succ, loopsNested, loopsNested, ← ih]
          rfl

/-- The bound on nesting prunes and does nothing else. No command of a program is inside
    of more than two hundred bodies, and the program is what a reader would find that
    follows every body as far as it goes, but with empty bodies from the two hundred and
    first level on. -/
theorem parse_eq_pruned (source : String) :
    let text := Text.upperCase source.toList
    (∀ start text, commandsUncapped start text =
        commandsWith (fun b => commandsUncapped b.start b.text) start text) ∧
      (∀ c ∈ (Program.parse source).value, c.nesting ≤ 200) ∧
      (Program.parse source).value = pruned 201 (commandsUncapped 0 text).value := by
  intro text
  exact ⟨commandsUncapped_eq, fun c hc => nesting_le_of_mem_parse hc, value_parse source⟩

/-- Three hundred loops inside each other. The last one that is kept is the two hundred
    and first, and its body is empty. -/
theorem parse_eq_pruned_loops :
    let source := String.ofList (writeAll (loopNodes 300))
    let c := Command.loop (firstArg [oneText] 0.0) (loopsNested 200)
    c ∈ (Program.parse source).value ∧ c.nesting = 200 ∧ c.nesting ≤ 200 ∧
      pruned 201 (commandsUncapped 0 (Text.upperCase source.toList)).value = [c] := by
  intro source c
  have hvalue : (Program.parse source).value = [c] := by
    rw [value_parse_writeAll, commandAll_loopNodes, pruned_loopsNested]
    rfl
  have hmem : c ∈ (Program.parse source).value := by
    rw [hvalue]
    exact List.mem_singleton_self c
  rcases parse_eq_pruned source with ⟨-, hnesting, hpruned⟩
  refine ⟨hmem, ?_, hnesting c hmem, hpruned.symm.trans hvalue⟩
  rw [Command.nesting, bodyNesting_loopsNested]

end TurtleGraphics
