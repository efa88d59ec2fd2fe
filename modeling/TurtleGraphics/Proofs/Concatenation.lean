import TurtleGraphics.Proofs.Causes
import TurtleGraphics.Proofs.Places

/-!
# Programs Put One Below the Other

Two programs, each on lines of its own, are read as the one and then the other. The
first may be anything at all: a parameter list that is not closed, a comment, a
statement without its body or a bracket that fits nothing ends with its line and does
nothing to the lines below.

Two things cannot be allowed, for a body may go over several lines. A body of the first
program that is not closed would take the second one into it; this shows in what is
reported about the first. A brace at the beginning of the second program would be read
with what stands above it.

That every body at the outer level is closed is all that is needed of the first
program. The text of a closed body is fixed when it is found, so whatever is wrong
inside of it stays inside.

## Main definitions

* `Diagnostic.wording`: What a diagnostic says, its place apart.

## Theorems

* `Statement.unclosed_mem_causes`: A body that is not closed is reported.
* `closed_outline`: Where none is reported, all bodies are closed.
* `parse_append_newline`: Two programs one below the other.
-/

namespace TurtleGraphics

/-- What a diagnostic says, its place apart. -/
def Diagnostic.wording (d : Diagnostic) : Kind × Severity × String :=
  (d.kind, d.severity, d.message)

/-- What is recorded when something is found, places apart. -/
def Noted.wordings {α : Type} (x : Noted α) : List (Kind × Severity × String) :=
  x.faults.map fun f => f.report.wording

theorem Noted.wordings_eq {α : Type} (x : Noted α) :
    x.wordings = x.causes.map fun f => f.report.wording := by
  rw [wordings, causes, List.map_map]
  rfl

section

variable {nested : Block → Noted (List Command)}

theorem Body.unclosed_mem_causes {body : Body} (span : Span) (h : ¬ body.Closed) :
    Fault.unclosed .curly ∈ (body.commands nested span).causes := by
  cases body with
  | absent => exact absurd trivial h
  | unopened => exact absurd trivial h
  | block b =>
      have hopen : b.closed = false := Bool.eq_false_iff.mpr h
      rw [Body.commands, hopen]
      exact List.mem_cons_self

/-- A body that is not closed is reported, for each of the codes that have one. -/
theorem Statement.unclosed_mem_causes {s : Statement} (hcode : s.code.hasBody = true)
    (h : ¬ s.body.Closed) : Fault.unclosed .curly ∈ (s.command nested).causes := by
  obtain ⟨code, name, params, body, span⟩ := s
  -- The body is looked at whatever the parameters and the name are.
  have hbody : Fault.unclosed .curly ∈ (body.commands nested span).causes :=
    Body.unclosed_mem_causes span h
  rw [Statement.command, Noted.causes_bind]
  refine List.mem_append_right _ ?_
  cases code with
  | loop | condition =>
      simp only [Noted.causes_bind]
      exact List.mem_append_right _ (List.mem_append_left _ hbody)
  | procedure =>
      simp only [Noted.causes_bind]
      exact List.mem_append_left _ hbody
  | _ => cases hcode

end

/-- A code that has no place for a body has none. -/
theorem Statement.closed_read_of_hasBody_eq_false {code : Code} (c : Cursor)
    (h : code.hasBody = false) : (Statement.read code c).1.body.Closed := by
  simp only [Statement.read, h]
  exact trivial

theorem Item.unclosed_mem_causes {ch : Char} {c : Cursor} {item : Item}
    (hitem : item ∈ (Item.read ch c).1) (h : ¬ item.Closed)
    (nested : Block → Noted (List Command)) :
    Fault.unclosed .curly ∈ (item.command nested).causes := by
  unfold Item.read at hitem
  cases hcode : Code.ofChar? ch with
  | none =>
      -- A character that begins no statement has no body that could be open.
      simp only [hcode] at hitem
      split at hitem
      · cases hitem
      · cases hitem
        exact absurd trivial h
  | some code =>
      simp only [hcode, Option.mem_some_iff] at hitem
      subst hitem
      cases hbody : code.hasBody with
      | true => exact Statement.unclosed_mem_causes hbody h
      | false => exact absurd (Statement.closed_read_of_hasBody_eq_false c hbody) h

/-- Where no body is reported as open, all are closed. -/
theorem closed_outline {room start : Nat} {text : List Char}
    (h : Fault.unclosed .curly ∉ (commandsAt room start text).causes) :
    ∀ item ∈ outline text, item.Closed := by
  rw [← unplaced_statements start text, List.forall_mem_map]
  intro item hitem
  refine item.closed_unplaced.mpr ?_
  refine Classical.byContradiction fun hopen => h ?_
  obtain ⟨_, _, _, -, hread⟩ := Item.exists_read_of_mem_statements hitem
  rw [commandsAt_eq, causes_commandsOf, List.mem_flatMap]
  exact ⟨item, hitem, Item.unclosed_mem_causes hread hopen _⟩

/-- Two programs one below the other are read as the one and then the other, where the
    first leaves no body open and the second does not begin with a brace. -/
theorem parse_append_newline (a b : String)
    (hclosed : ∀ f ∈ (Program.parse a).faults, f.report.message ≠ "Enclosing \x7d not found")
    (hbrace : ∀ c ∈ ((Text.upperCase b.toList).dropWhile isBlank).head?,
      c ≠ '\x7b' ∧ c ≠ '\x7d') :
    (Program.parse (a ++ "\n" ++ b)).value =
        (Program.parse a).value ++ (Program.parse b).value ∧
      (Program.parse (a ++ "\n" ++ b)).wordings =
        (Program.parse a).wordings ++ (Program.parse b).wordings := by
  have htext : Text.upperCase (a ++ "\n" ++ b).toList =
      Text.upperCase a.toList ++ '\n' :: Text.upperCase b.toList := by
    rw [String.toList_append, String.toList_append, Text.upperCase_append,
      Text.upperCase_append, List.append_assoc]
    rfl
  have hreported : Fault.unclosed .curly ∉ (Program.parse a).causes := by
    intro hmem
    obtain ⟨f, hf, hfault⟩ := List.mem_map.mp hmem
    refine hclosed f hf ?_
    rw [LocatedFault.report, hfault]
    rfl
  have houtline : outline (Text.upperCase (a ++ "\n" ++ b).toList) =
      outline (Text.upperCase a.toList) ++ outline (Text.upperCase b.toList) := by
    have hends : Ends ('\n' :: Text.upperCase b.toList) := by
      intro c hc
      cases hc
      rfl
    rw [htext, outline_append hends hbrace (closed_outline hreported)]
    rw [← List.singleton_append, outline_blanks]
    intro c hc
    rw [List.mem_singleton.mp hc]
    rfl
  -- Commands and causes are found in the outlines item by item.
  have hboth := alike_commandsAt Program.maxNesting 0 (Text.upperCase (a ++ "\n" ++ b).toList)
  have hfirst := alike_commandsAt Program.maxNesting 0 (Text.upperCase a.toList)
  have hsecond := alike_commandsAt Program.maxNesting 0 (Text.upperCase b.toList)
  rw [houtline] at hboth
  refine ⟨?_, ?_⟩
  · rw [Program.parse, Program.parse, Program.parse, hboth.value, hfirst.value, hsecond.value,
      value_commandsOf, List.filterMap_append, ← value_commandsOf, ← value_commandsOf]
  · rw [Noted.wordings_eq, Noted.wordings_eq, Noted.wordings_eq, Program.parse, Program.parse,
      Program.parse, hboth.causes, hfirst.causes, hsecond.causes, ← List.map_append,
      causes_commandsOf, List.flatMap_append, ← causes_commandsOf, ← causes_commandsOf]

-- A condition without a body, and its parameter list not closed: the end of the line
-- ends both.
theorem parse_append_newline_of_unclosed_list :
    (Program.parse ("?(" ++ "\n" ++ "H")).value =
        (Program.parse "?(").value ++ (Program.parse "H").value ∧
      (Program.parse ("?(" ++ "\n" ++ "H")).wordings =
        [(.unbalancedDelimiter, .warning, "Enclosing ) not found"),
          (.missingPart, .error, "?: Body expected")] := by
  have hclosed : ∀ f ∈ (Program.parse "?(").faults,
      f.report.message ≠ "Enclosing \x7d not found" := by
    decide +kernel
  have hbrace : ∀ c ∈ ((Text.upperCase "H".toList).dropWhile isBlank).head?,
      c ≠ '\x7b' ∧ c ≠ '\x7d' := by
    have hhead : ((Text.upperCase "H".toList).dropWhile isBlank).head? = some 'H' := by
      decide +kernel
    intro c hc
    rw [hhead] at hc
    cases hc
    decide
  have hwordings : (Program.parse "?(").wordings ++ (Program.parse "H").wordings =
      [(.unbalancedDelimiter, .warning, "Enclosing ) not found"),
        (.missingPart, .error, "?: Body expected")] := by
    decide +kernel
  have hread := parse_append_newline "?(" "H" hclosed hbrace
  exact ⟨hread.1, hread.2.trans hwordings⟩

end TurtleGraphics
