import TurtleGraphics.Proofs.Casing
import TurtleGraphics.Proofs.Parts

/-!
# Names That Are Bound Can Be Read

Names are written and read in two places, which do not treat them alike. An assignment takes
the run of name characters behind its dollar sign, and a definition takes its parameters,
each with at most one dollar sign in front, both from a text that is in upper case as a
whole. An expression takes the run of name characters behind a dollar sign and puts them
into upper case itself, one by one. Dollar signs and digits are name characters, so there
are names such as `$A` and `5A`, and the name of `$$A` depends on who reads it.

What the one side binds the other side finds nevertheless, for every name that is bound,
however deep in the program: with a dollar sign in front it is read back as it is.

## Main definitions

* `Command.bound`: The names that a command binds.
* `IsWord`: Name characters in upper case.
* `Readable`: A name that an expression reads as it is.

## Theorems

* `scan_word`: A word behind a dollar sign is one token.
* `IsWord.readable`: Words can be read.
* `Param.isWord_name`: The name of a parameter is a word.
* `Statement.isWord_of_mem_bound`: The names that are bound by a statement are words.
* `bound_names_readable`: Every name that is bound can be read.
-/

namespace TurtleGraphics

/-- The names that a command binds, apart from the commands inside of it. A parameter that
    is no name is passed over. -/
def Command.bound : Command → List String
  | .basic (.assign name _) => [name]
  | .define _ params _ => params.filterMap id
  | _ => []

/-- A text with at least one character, and only name characters, in upper case. -/
structure IsWord (name : String) : Prop where
  nonempty : name.toList ≠ []
  chars : ∀ c ∈ name.toList, isNameChar c = true ∧ c.isLower = false

/-- A name that an expression reads as it is: it is a word, and with a dollar sign in front
    it is one token and the whole program of an expression, with nothing to report. -/
structure Readable (name : String) : Prop extends IsWord name where
  tokens : tokenize ('$' :: name.toList) = ⟨[.variable name], []⟩
  expression : Expression.parse ('$' :: name.toList) = (some (.deferred [.variable name]), [])

/-- Upper case by single characters leaves a word as it is. -/
theorem IsWord.map_toUpper {name : String} (h : IsWord name) :
    name.toList.map Char.toUpper = name.toList := by
  have hself : ∀ c ∈ name.toList, c.toUpper = id c :=
    fun c hc => Text.toUpper_of_isLower_eq_false (h.chars c hc).2
  rw [List.map_congr_left hself, List.map_id]

/-- A word behind a dollar sign is one token. The run of name characters ends with the text,
    and the dollar signs in it are part of the name. -/
theorem scan_word {name : String} (h : IsWord name) :
    scan ('$' :: name.toList) = ⟨[.variable name], []⟩ := by
  have hall : ∀ c ∈ name.toList, isNameChar c = true := fun c hc => (h.chars c hc).1
  have htake : name.toList.takeWhile isNameChar = name.toList :=
    List.takeWhile_eq_self_iff.mpr hall
  have hdrop : name.toList.dropWhile isNameChar = [] := List.dropWhile_eq_nil_iff.mpr hall
  have hempty : name.toList.isEmpty = false := List.isEmpty_eq_false_iff.mpr h.nonempty
  have hop : Operator.ofSymbol? '$' = none := by decide
  have hend : scan [] = ⟨[], []⟩ := by rw [scan]
  rw [scan, if_neg (by decide), if_neg (by decide), hop]
  simp only [htake, hdrop, h.map_toUpper, String.ofList_toList, hempty, hend]
  rfl

theorem IsWord.readable {name : String} (h : IsWord name) : Readable name := by
  have htokens : tokenize ('$' :: name.toList) = ⟨[.variable name], []⟩ := by
    rw [tokenize, scan_word h]
    rfl
  refine ⟨h, htokens, ?_⟩
  rw [Expression.parse, htokens]
  rfl

/-- The name of a parameter has its characters from the text of the parameter, and there is
    at least one: a lone dollar sign is no name, so one is left when it is taken off. -/
theorem Param.of_mem_name {p : Param} {name : String} (h : name ∈ p.name.value) :
    name.toList ≠ [] ∧ ∀ c ∈ name.toList, isNameChar c = true ∧ c ∈ p.text := by
  unfold Param.name at h
  split at h
  next hname =>
    simp only [isName, Bool.and_eq_true, Bool.not_eq_true', List.isEmpty_eq_false_iff, bne_iff_ne,
      List.all_eq_true] at hname
    rcases hname with ⟨⟨hne, hlone⟩, hall⟩
    split at h
    next rest htext =>
      cases h
      rw [htext] at hlone hall
      rw [String.toList_ofList, htext]
      refine ⟨fun hnil => hlone (by rw [hnil]), fun c hc => ?_⟩
      exact ⟨hall c (List.mem_cons_of_mem _ hc), List.mem_cons_of_mem _ hc⟩
    next text htext =>
      cases h
      rw [String.toList_ofList]
      exact ⟨hne, fun c hc => ⟨hall c hc, hc⟩⟩
  next => cases h

namespace Statement

variable {nested : Block → Noted (List Command)} {s : Statement}

/-- The statements that give an instruction bind nothing. -/
theorem bound_instruction {i : Instruction} (h : s.instruction.value = some i) :
    (Command.basic i).bound = [] := by
  unfold instruction at h
  cases hcode : s.code with
  | move penDown =>
      rw [hcode] at h
      cases h
      simp only [movement]
      split <;> rfl
  | _ =>
      rw [hcode] at h
      cases h <;> rfl

/-- The names that a statement binds are words, if its text is in upper case. -/
theorem isWord_of_mem_bound (hs : s.MadeOf (·.isLower = false)) {c : Command}
    (hc : (s.command nested).value = some c) {name : String} (h : name ∈ c.bound) :
    IsWord name := by
  cases gives_command hc with
  | basic hi =>
      rw [bound_instruction hi] at h
      cases h
  | loop | condition | call => cases h
  | assign hname =>
      rw [List.mem_singleton.mp h]
      rcases hs.name _ hname with ⟨hne, hchars⟩
      exact ⟨hne, hchars⟩
  | define =>
      -- Parameters that are no names have been reported, and bind nothing.
      rcases List.mem_filterMap.mp h with ⟨_, hmem, rfl⟩
      simp only [Params.names, Noted.traverse, List.map_map] at hmem
      rcases List.mem_map.mp hmem with ⟨p, hp, hname⟩
      rcases Param.of_mem_name hname with ⟨hne, hchars⟩
      exact ⟨hne, fun c hc => (hchars c hc).imp_right fun htext => (hs.params p hp c htext).2⟩

end Statement

/-- Every name that is bound can be read. Wherever a program assigns a variable or names a
    parameter, however deep in it, the name is a word in upper case, and an expression that
    has it behind a dollar sign reads just this name. -/
theorem bound_names_readable (source : String) :
    ∀ c ∈ (Program.parse source).value,
      c.Everywhere fun d => ∀ name ∈ d.bound, Readable name := by
  intro c hc
  refine everywhere_of_mem_commandsAt (Q := fun text => ∀ ch ∈ text, ch.isLower = false) ?_ ?_ ?_ hc
  · intro nested start text s d htext hs hd name hname
    have hmade := Statement.madeOf_of_mem_statements htext hs
    exact (Statement.isWord_of_mem_bound hmade hd hname).readable
  · intro start text s b htext hs hb
    exact (Statement.madeOf_of_mem_statements htext hs).body b hb
  · exact fun ch hch => Text.isLower_of_mem_upperCase hch

/-- Two dollar signs, a digit in front, and a name in a body. -/
theorem bound_names_readable_dollars :
    (∃ c ∈ (Program.parse "@p($$a, 5b)\x7b$$c(1)\x7d").value,
      c.bound = ["$A", "5B"] ∧ ∃ d ∈ c.body, d.bound = ["$C"]) ∧
      Readable "$A" ∧ Readable "5B" ∧ Readable "$C" := by
  have hparse : ∃ c ∈ (Program.parse "@p($$a, 5b)\x7b$$c(1)\x7d").value,
      c.bound = ["$A", "5B"] ∧ ∃ d ∈ c.body, d.bound = ["$C"] := by decide +kernel
  rcases hparse with ⟨c, hc, hbound, d, hd, hbound'⟩
  have hall := bound_names_readable _ c hc
  have hinside := (hall.inside d hd).here
  refine ⟨⟨c, hc, hbound, d, hd, hbound'⟩, hall.here _ ?_, hall.here _ ?_, hinside _ ?_⟩
  · rw [hbound]
    decide
  · rw [hbound]
    decide
  · rw [hbound']
    decide

end TurtleGraphics
