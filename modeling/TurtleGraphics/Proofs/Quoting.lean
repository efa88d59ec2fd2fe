import Mathlib.Data.List.TakeWhile
import TurtleGraphics.Proofs.Casing
import TurtleGraphics.Proofs.Mishaps
import TurtleGraphics.Proofs.Parts

/-!
# What Messages Quote

Most messages have a fixed wording. Some end with a piece of the program: a character, a name
or a parameter. Here these pieces are found to be without ends of lines, so that every message
of a run is a line (`newline_not_mem_message_run`).

A character that is reported is not a blank, and the end of a line is one. A parameter stands
within one line, and so does the name of a procedure or of a variable in an expression, since
it is made of name characters only. The names of variables go a long way: they are read when
the program is read, and quoted when a command is run that has them in an argument.

## Main definitions

* `Fault.quoted`: What a message quotes.
* `Params.Reads`: A variable is read by an expression in a parameter list.
* `Fault.InLine`, `Command.InLine`: What is quoted, and what can be, stands within one line.

## Theorems

* `Fault.newline_mem_message_iff`: Only a quotation can have the end of a line in it.
* `newline_not_mem_of_variable_mem`: Names of variables stand within one line.
* `Statement.reads_of_mem_argReads`: The variables of a command are in its parameters.
* `ReportedIn.inLine`: Reading quotes nothing that goes beyond a line.
* `Mishap.inLine`, `Statement.inLine_command`: Nor does running.
* `newline_not_mem_message_run`: The messages of a run are lines.
-/

namespace TurtleGraphics

/-- What the message of a fault quotes from the program. -/
def Fault.quoted : Fault → List Char
  | .unknownCommand c | .unknownToken c | .missingOperands c => [c]
  | .notIdentifier text | .undefinedVariable text | .undefinedProcedure text => text.toList
  | _ => []

theorem newline_not_mem_toString (n : Nat) : '\n' ∉ (toString n).toList := by
  intro hmem
  rw [Nat.toString_eq_repr, Nat.toList_repr] at hmem
  exact absurd (Nat.isDigit_of_mem_toDigits (by decide) (by decide) hmem) (by decide)

theorem newline_mem_append_iff {wording : String} (h : '\n' ∉ wording.toList) (text : String) :
    '\n' ∈ (wording ++ text).toList ↔ '\n' ∈ text.toList := by
  rw [String.toList_append, List.mem_append]
  exact or_iff_right h

/-- The fixed part of a message has no end of a line in it. -/
theorem Fault.newline_mem_message_iff (f : Fault) :
    '\n' ∈ f.message.toList ↔ '\n' ∈ f.quoted := by
  have hchar : ∀ {wording : String}, '\n' ∉ wording.toList → ∀ c : Char,
      ('\n' ∈ (wording ++ c.toString).toList ↔ '\n' ∈ [c]) := by
    intro wording h c
    rw [newline_mem_append_iff h]
    simp
  cases f with
  | unknownCommand c | unknownToken c | missingOperands c => exact hchar (by decide) c
  | notIdentifier text | undefinedVariable text | undefinedProcedure text =>
      exact newline_mem_append_iff (by decide) text
  | limitExceeded limit =>
      refine (newline_mem_append_iff (by decide) _).trans ?_
      exact iff_of_false (newline_not_mem_toString limit) List.not_mem_nil
  | unopened d | unclosed d =>
      cases d <;> exact iff_of_false (by decide +kernel) List.not_mem_nil
  | _ => exact iff_of_false (by decide) List.not_mem_nil

section Variables

variable {name : String}

/-- The name of a variable in an expression is a run of name characters, put into upper
    case. -/
theorem newline_not_mem_of_variable_mem {text : List Char}
    (h : .variable name ∈ (scan text).tokens) : '\n' ∉ name.toList := by
  fun_induction scan text
  case case1 => cases h
  case case2 ih | case7 ih | case9 ih => exact ih h
  case case3 ih | case4 ih | case5 ih | case6 ih =>
      rcases List.mem_cons.mp h with h | h
      · cases h
      · exact ih h
  case case8 ih =>
      -- The one case that gives a variable: a run of name characters behind a dollar sign.
      rcases List.mem_cons.mp h with h | h
      · cases h
        rw [String.toList_ofList]
        intro hmem
        rcases List.mem_map.mp hmem with ⟨c, hc, heq⟩
        have hne : c ≠ '\n' := by
          rintro rfl
          exact absurd (List.mem_takeWhile_imp hc) (by decide)
        exact Text.toUpper_ne_of_mem_marks (by decide) hne heq
      · exact ih h

theorem Expression.newline_not_mem_of_mem_reads {text : List Char} {e : Expression}
    (h : (parse text).1 = some e) (hname : name ∈ e.reads) : '\n' ∉ name.toList := by
  unfold parse at h
  rcases hprogram : Rpn.ofTokens (tokenize text).tokens with ⟨_ | program, faults⟩
  · simp only [hprogram] at h
    cases h
  · simp only [hprogram] at h
    split at h
    · cases h
      have hvariable := Rpn.variable_mem_of_mem_reads (congrArg Prod.fst hprogram) hname
      exact newline_not_mem_of_variable_mem
        ((Token.rewritten_inContextAfter none _).variable_mem hvariable)
    · -- A value that is known when it is read reads nothing.
      rcases Option.map_eq_some_iff.mp h with ⟨v, -, rfl⟩
      cases hname

end Variables

/-- A variable is read by the expression of a parameter. -/
def Params.Reads (ps : Params) (name : String) : Prop :=
  ∃ p ∈ ps.items, ∃ e, p.expression.value = some e ∧ name ∈ e.reads

theorem Params.Reads.newline_not_mem {ps : Params} {name : String} (h : ps.Reads name) :
    '\n' ∉ name.toList := by
  rcases h with ⟨p, -, e, he, hname⟩
  exact Expression.newline_not_mem_of_mem_reads he hname

theorem Arg.mem_reads_ofOption {e : Option Expression} {default : Scalar} {name : String}
    (h : name ∈ (ofOption e default).reads) : ∃ e', e = some e' ∧ name ∈ e'.reads := by
  cases e with
  | none => cases h
  | some e' => exact ⟨e', rfl, h⟩

theorem ColorArgs.mem_reads_ofExpressions {es : List Expression} {name : String}
    (h : name ∈ (ofExpressions es).reads) : ∃ e ∈ es, name ∈ e.reads := by
  unfold ofExpressions at h
  split at h
  next v => exact ⟨v, List.mem_cons_self, h⟩
  next =>
    simp only [ColorArgs.reads, List.mem_append] at h
    rcases h with ((h | h) | h) | h <;>
      rcases Arg.mem_reads_ofOption h with ⟨e, he, hname⟩ <;>
      exact ⟨e, List.mem_of_getElem? he, hname⟩

namespace Params

variable {ps : Params} {name : String}

theorem reads_firstExpression {e : Expression} (h : ps.firstExpression.value = some e)
    (hname : name ∈ e.reads) : ps.Reads name := by
  unfold firstExpression at h
  split at h
  next p rest hitems => exact ⟨p, hitems ▸ List.mem_cons_self, e, h, hname⟩
  next => cases h

theorem reads_firstArg {default : Scalar} (h : name ∈ (ps.firstArg default).value.reads) :
    ps.Reads name := by
  rcases Arg.mem_reads_ofOption h with ⟨e, he, hname⟩
  exact reads_firstExpression he hname

theorem reads_arg {default : Scalar} {a : Arg} (ha : a ∈ (ps.args default).value)
    (h : name ∈ a.reads) : ps.Reads name := by
  simp only [args, Noted.traverse, List.map_map] at ha
  rcases List.mem_map.mp ha with ⟨p, hp, rfl⟩
  rcases Arg.mem_reads_ofOption h with ⟨e, he, hname⟩
  exact ⟨p, hp, e, he, hname⟩

theorem reads_colorArgs (h : name ∈ ps.colorArgs.value.reads) : ps.Reads name := by
  rcases ColorArgs.mem_reads_ofExpressions h with ⟨e, he, hname⟩
  rcases List.mem_filterMap.mp he with ⟨_, hmem, rfl⟩
  simp only [Noted.traverse, List.map_map] at hmem
  rcases List.mem_map.mp hmem with ⟨p, hp, hvalue⟩
  exact ⟨p, hp, e, hvalue, hname⟩

end Params

namespace Statement

variable {nested : Block → Noted (List Command)} {s : Statement} {name : String}

theorem reads_of_mem_instruction {i : Instruction} (hi : s.instruction.value = some i)
    (h : name ∈ i.reads) : s.params.Reads name := by
  unfold instruction at hi
  cases hcode : s.code with
  | turn clockwise =>
      rw [hcode] at hi
      cases hi
      change name ∈ s.params.firstExpression.value.elim [] Expression.reads at h
      cases hvalue : s.params.firstExpression.value with
      | none =>
          rw [hvalue] at h
          cases h
      | some e =>
          rw [hvalue] at h
          exact Params.reads_firstExpression hvalue h
  | move penDown =>
      rw [hcode] at hi
      cases hi
      change name ∈ (movement penDown (s.params.args 0.0).value).reads at h
      -- Two arguments, one or none; all that are used are arguments of the list.
      rcases hargs : (s.params.args 0.0).value with _ | ⟨x, _ | ⟨y, rest⟩⟩
      · rw [hargs] at h
        cases h
      · rw [hargs] at h
        exact Params.reads_arg (hargs ▸ List.mem_cons_self) h
      · rw [hargs] at h
        rcases List.mem_append.mp h with h | h
        · exact Params.reads_arg (hargs ▸ List.mem_cons_self) h
        · exact Params.reads_arg (hargs ▸ List.mem_cons_of_mem _ List.mem_cons_self) h
  | heading | step | width | limit =>
      rw [hcode] at hi
      cases hi
      exact Params.reads_firstArg h
  | color | background =>
      rw [hcode] at hi
      cases hi
      exact Params.reads_colorArgs h
  | _ =>
      rw [hcode] at hi
      cases hi <;> cases h

/-- The variables that the arguments of a command read are read by the parameters of its
    statement. -/
theorem reads_of_mem_argReads {c : Command} (hc : (s.command nested).value = some c)
    (h : name ∈ c.argReads) : s.params.Reads name := by
  cases gives_command hc with
  | basic hi => exact reads_of_mem_instruction hi h
  | loop | condition => exact Params.reads_firstArg h
  | define => cases h
  | call =>
      rcases List.mem_flatMap.mp h with ⟨a, ha, h⟩
      exact Params.reads_arg ha h
  | assign _ hvalue => exact Params.reads_firstExpression hvalue h

end Statement

/-- What the fault quotes stands within one line. -/
def Fault.InLine (f : Fault) : Prop := '\n' ∉ f.quoted

/-- The names that running the command can quote stand within one line. -/
structure Command.InLine (c : Command) : Prop where
  reads : ∀ name ∈ c.argReads, '\n' ∉ name.toList
  call : ∀ name args, c = .call name args → '\n' ∉ name.toList

namespace Fault.InLine

theorem of_ne {f : Fault} {c : Char} (hf : f.quoted = [c]) (hc : c ≠ '\n') : f.InLine := by
  intro hmem
  rw [hf] at hmem
  exact hc (List.mem_singleton.mp hmem).symm

theorem of_isBlank {f : Fault} {c : Char} (hf : f.quoted = [c]) (hc : isBlank c = false) :
    f.InLine := by
  refine of_ne hf ?_
  rintro rfl
  cases hc

theorem missingOperands (op : Operator) : (Fault.missingOperands op.symbol).InLine := by
  refine of_ne rfl ?_
  rcases op with op | op <;> cases op <;> decide

/-- Most faults quote nothing. -/
theorem of_mem {f : Fault} {faults : List Fault} (hf : f ∈ faults)
    (h : ∀ f ∈ faults, f.quoted = []) : f.InLine := by
  unfold Fault.InLine
  rw [h f hf]
  exact List.not_mem_nil

end Fault.InLine

section

variable {f : Fault}

theorem Expression.Reports.inLine {text : List Char} (h : Expression.Reports text f) :
    f.InLine := by
  cases h with
  | unknownToken hc => exact .of_isBlank rfl hc
  | missingOperands op => exact .missingOperands op
  | result hf => exact .of_mem hf (by decide)
  | emptyIdentifier | unmatchedClosing | unmatchedOpening => exact List.not_mem_nil

theorem Eval.Mishap.inLine {V : String → Prop} (hV : ∀ name, V name → '\n' ∉ name.toList)
    (h : Eval.Mishap V f) : f.InLine := by
  cases h with
  | undefinedVariable hname => exact hV _ hname
  | missingOperands op => exact .missingOperands op
  | result hf => exact .of_mem hf (by decide)

/-- Running commands with such names quotes nothing else. -/
theorem Mishap.inLine (h : Mishap Command.InLine f) : f.InLine := by
  cases h with
  | argument hc h => exact h.inLine hc.reads
  | call hc => exact hc.call _ _ rfl
  | stackFull | stackEmpty => exact List.not_mem_nil

end

section

variable {f : LocatedFault}

theorem Statement.Reports.inLine {s : Statement} (hs : s.MadeOf fun _ => True)
    (h : s.Reports f) : f.fault.InLine := by
  cases h with
  | brackets h =>
      rcases Params.of_mem_bracketFaults h with h | h <;> rw [h] <;> exact List.not_mem_nil
  | expression hp hf => exact hf.inLine
  | @name p hp =>
      -- A parameter that is no name is quoted as a whole, whatever is in it.
      change '\n' ∉ (String.ofList p.text).toList
      rw [String.toList_ofList]
      exact fun hmem => (hs.params p hp _ hmem).1 rfl
  | whole hf => exact .of_mem hf (by decide)
  | body => exact List.not_mem_nil

/-- A character that begins no statement is reported unless it is a blank. -/
theorem Item.isBlank_of_unknown_mem {start pos : Nat} {text : List Char} {c : Char}
    (h : .unknown c pos ∈ statements start text) : isBlank c = false := by
  rcases Item.exists_read_of_mem_statements h with ⟨pos', ch, rest, -, hread⟩
  unfold Item.read at hread
  cases hcode : Code.ofChar? ch with
  | some code =>
      rw [hcode] at hread
      cases hread
  | none =>
      rw [hcode] at hread
      simp only at hread
      split at hread
      next => cases hread
      next hblank =>
        cases hread
        exact Bool.eq_false_iff.mpr hblank

/-- Reading quotes nothing that goes beyond a line. -/
theorem ReportedIn.inLine {room start : Nat} {text : List Char} (h : ReportedIn room start text f) :
    f.fault.InLine := by
  induction h with
  | @item _ _ _ item _ hitem hreports =>
      cases item with
      | unknown c pos =>
          rw [hreports]
          exact .of_isBlank rfl (Item.isBlank_of_unknown_mem hitem)
      | statement s =>
          exact hreports.inLine (Statement.madeOf_of_mem_statements (fun _ _ => trivial) hitem)
  | tooDeep => exact List.not_mem_nil
  | inside _ _ _ ih => exact ih

end

/-- The commands of statements have names within one line. -/
theorem Statement.inLine_command {nested : Block → Noted (List Command)} {s : Statement}
    (hs : s.MadeOf fun _ => True) {c : Command} (hc : (s.command nested).value = some c) :
    c.InLine := by
  refine ⟨fun name hname => (reads_of_mem_argReads hc hname).newline_not_mem, ?_⟩
  rintro name args rfl hmem
  cases gives_command hc with
  | call hname => exact absurd ((hs.name name hname).2 _ hmem).1 (by decide)

theorem inLine_of_mem_parse {source : String} {c : Command}
    (h : c ∈ (Program.parse source).value) : c.Everywhere Command.InLine :=
  everywhere_of_mem_parse (fun _ _ _ _ _ hs hc => Statement.inLine_command
    (Statement.madeOf_of_mem_statements (fun _ _ => trivial) hs) hc) h

/-- The messages of a run are lines. -/
theorem newline_not_mem_message_run {o : Options} {source : String} {d : Diagnostic}
    (h : d ∈ (run o source).log.entries.toList) : '\n' ∉ d.message.toList := by
  have hmessage : ∀ f : Fault, f.InLine → '\n' ∉ f.message.toList :=
    fun f hf hmem => hf (f.newline_mem_message_iff.mp hmem)
  rcases of_mem_log_run (fun _ => inLine_of_mem_parse) h with
    ⟨f, hf, rfl⟩ | ⟨f, hf, rfl⟩ | ⟨bound, rfl⟩
  · exact hmessage f.fault (reportedIn_of_mem_commandsAt hf).inLine
  · exact hmessage f hf.inLine
  · exact hmessage (.limitExceeded bound) List.not_mem_nil

end TurtleGraphics
