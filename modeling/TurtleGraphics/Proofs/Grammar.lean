import TurtleGraphics.Proofs.Causes
import TurtleGraphics.Proofs.Skeleton

/-!
# Written Skeletons Are Read Back

A skeleton that is written down is read as what is meant by it: one command for each
node, with the same nesting, and no problems but those of the parameter texts.

Reading works on raw text. A parameter list is cut off by counting round brackets and
then cut at its commas by counting them again; a body is cut off by counting braces and
read later, as a text of its own. So there are two things to show, and they are shown
apart. Every reader stops where its part was written to end, whatever comes behind it,
so a written skeleton is cut into one statement for each node (`outline_writeAll`). The
text of a body is then again a written skeleton, so the commands follow by induction on
the tree, with the room that is left for bodies going down by one at each level.

A call is the one statement that does not end with a bracket of its own: it looks for
a body behind it. There is none because the next node begins with its code.

## Main definitions

* `listed`: The parameters of a list that is closed.
* `Node.statement`: What a node is cut into.
* `Starts`: Text that begins with neither a blank nor a brace.

## Theorems

* `map_snd_pieces_joined`: Parameters are cut where they were joined.
* `Cursor.readParams_written`, `Cursor.readBody_written`, `Cursor.readName_written`: Each
  part is read as it was written and no further.
* `outline_writeAll`: A written skeleton is cut into its nodes.
* `Node.finds_command`: A node is read as the command that is meant by it.
* `parse_writeAll`: A skeleton that is written down is read back.
-/

namespace TurtleGraphics

theorem pieces_cons {depth : Nat} {c : Char} (h : c = ',' → 0 < depth) (start : Nat)
    (taken rest : List Char) :
    pieces depth start taken (c :: rest) =
      pieces (Delimiter.round.level depth c) start (c :: taken) rest := by
  have hcomma : ¬ (c = ',' ∧ depth = 0) := by
    rintro ⟨hc, rfl⟩
    exact Nat.lt_irrefl 0 (h hc)
  rw [pieces, if_neg hcomma]
  by_cases hclosing : c = ')'
  · subst hclosing
    rfl
  · have hlevel : Delimiter.round.level depth c = if c = '(' then depth + 1 else depth :=
      if_neg hclosing
    rw [hlevel]
    simp only [if_neg hclosing]

/-- A parameter text is not cut: its commas stand inside of brackets. -/
theorem ParamText.pieces_append (p : ParamText) (start : Nat) (taken rest : List Char) :
    pieces 0 start taken (p.text ++ rest) = pieces 0 start (p.text.reverse ++ taken) rest := by
  -- As for the reader of brackets, the depth is general inside the text.
  have hcovered : ∀ (text : List Char) (depth : Nat) (taken : List Char),
      Covered .round depth ',' text →
      pieces depth start taken (text ++ rest) =
        pieces (text.foldl Delimiter.round.level depth) start (text.reverse ++ taken) rest := by
    intro text
    induction text with
    | nil => exact fun _ _ _ => rfl
    | cons c text ih =>
        intro depth taken hcov
        have hpos : c = ',' → 0 < depth := by
          rintro rfl
          exact hcov.head
        rw [List.cons_append, pieces_cons hpos, ih _ _ hcov.tail]
        rw [List.foldl_cons, List.reverse_cons, List.append_assoc, List.singleton_append]
  rw [hcovered p.text 0 taken p.commas, p.balanced.foldl_level]

/-- Parameters joined by commas are cut where they were joined. -/
theorem map_snd_pieces_joined (p : ParamText) (params : List ParamText) (start : Nat) :
    (pieces 0 start [] (joined (p :: params))).map Prod.snd =
      (p :: params).map ParamText.text := by
  induction params generalizing p start with
  | nil =>
      rw [joined_singleton, ← List.append_nil p.text, p.pieces_append, pieces]
      simp only [List.append_nil, List.reverse_reverse, List.map_cons, List.map_nil]
  | cons q params ih =>
      rw [joined_cons_cons, p.pieces_append, List.singleton_append, pieces, if_pos ⟨rfl, rfl⟩,
        List.map_cons, ih]
      simp only [List.append_nil, List.reverse_reverse, List.map_cons]

/-- A parameter text as a parameter, its place apart. -/
def ParamText.param (p : ParamText) : Param := ⟨p.text, ⟨0, 0⟩⟩

/-- The parameters of a list that is closed. -/
def listed (params : List ParamText) : Params := ⟨params.map ParamText.param, .proper⟩

theorem ParamText.ofPiece?_text (p : ParamText) :
    (Param.ofPiece? (0, p.text)).map Param.unplaced = some p.param := by
  have hempty : p.text.isEmpty = false := by
    rw [List.isEmpty_eq_false_iff]
    exact p.nonempty
  simp only [Param.ofPiece?, p.trimmed, hempty]
  rfl

theorem unplaced_ofList_joined (start : Nat) (params : List ParamText) :
    (Param.ofList start (joined params)).map Param.unplaced = params.map ParamText.param := by
  rw [Param.ofList, map_unplaced_filterMap_ofPiece?]
  cases params with
  | nil =>
      -- The one piece of an empty list is empty, and that is no parameter.
      rfl
  | cons p params =>
      rw [map_snd_pieces_joined, List.filterMap_map]
      rw [← List.filterMap_eq_map]
      exact congrArg (List.filterMap · (p :: params)) (funext ParamText.ofPiece?_text)

theorem passes_joined (params : List ParamText) : Passes .round endsList (joined params) := by
  induction params with
  | nil => exact .nil
  | cons p params ih =>
      have hp : Passes .round endsList p.text := by
        refine .of_balanced p.balanced fun c hc => ?_
        have hline := p.inLine c hc
        simp [endsList, hline]
      cases params with
      | nil =>
          rw [joined_singleton]
          exact hp
      | cons q params =>
          rw [joined_cons_cons]
          exact hp.append (.append (.singleton rfl (by decide) (by decide)) ih)

namespace Cursor

variable {c : Cursor} {rest : List Char}

/-- A written list is read to its end and no further. -/
theorem readParams_written (params : List ParamText) (h : c.rest = writeParams params ++ rest) :
    c.readParams.1.unplaced = listed params ∧ c.readParams.2.rest = rest := by
  have htext : c.rest.dropWhile isSpacing = '(' :: (joined params ++ ')' :: rest) := by
    rw [h, writeParams, List.cons_append, List.append_assoc]
    rfl
  have hread : Enclosed.read .round endsList (joined params ++ ')' :: rest) =
      ⟨joined params, true, rest⟩ :=
    (passes_joined params).read_eq rfl rest
  have hopening := readParams_of_opening htext
  rw [hopening.1, hopening.2, hread, unplaced_ofList_joined]
  exact ⟨rfl, rfl⟩

/-- A body is read up to where reading between braces comes to. -/
theorem readBody_opened {text : List Char} (h : c.rest = '\x7b' :: text) :
    let e := Enclosed.read .curly (fun _ => false) text
    c.readBody.1.unplaced = .block ⟨0, e.inside, e.closed⟩ ∧ c.readBody.2.rest = e.rest := by
  have htext : c.rest.dropWhile isBlank = '\x7b' :: text := by
    rw [h]
    rfl
  exact readBody_of_opening htext

/-- A body is read to the brace that closes it. -/
theorem readBody_written {text : List Char} (hpasses : Passes .curly (fun _ => false) text)
    (h : c.rest = inBraces text ++ rest) :
    c.readBody.1.unplaced = .block ⟨0, text, true⟩ ∧ c.readBody.2.rest = rest := by
  rw [inBraces, List.cons_append, List.append_assoc] at h
  have hread : Enclosed.read .curly (fun _ => false) (text ++ '\x7d' :: rest) =
      ⟨text, true, rest⟩ :=
    hpasses.read_eq rfl rest
  have hopened := readBody_opened h
  rw [hopened.1, hopened.2, List.singleton_append, hread]
  exact ⟨rfl, rfl⟩

end Cursor

theorem isSpacing_eq_false_of_isNameChar {c : Char} (h : isNameChar c = true) :
    isSpacing c = false := by
  cases hblank : isBlank c with
  | false => rw [isSpacing, hblank, Bool.false_and]
  | true =>
      simp only [isBlank, Bool.or_eq_true, beq_iff_eq] at hblank
      rcases hblank with (((rfl | rfl) | rfl) | rfl) | rfl <;> cases h

theorem Cursor.readName_written (name : Name) {c : Cursor} {rest : List Char}
    (h : c.rest = name.chars ++ '(' :: rest) :
    c.readName.1 = some name.string ∧ c.readName.2.rest = '(' :: rest := by
  -- No character of a name is spacing, and the bracket behind it is not one of a name.
  have hspacing : (name.chars ++ '(' :: rest).dropWhile isSpacing = name.chars ++ '(' :: rest := by
    rcases hchars : name.chars with _ | ⟨ch, chars⟩
    · exact absurd hchars name.nonempty
    · have hch : isNameChar ch = true := name.allowed ch (by rw [hchars]; exact List.mem_cons_self)
      rw [List.cons_append, List.dropWhile_cons_of_neg]
      rw [isSpacing_eq_false_of_isNameChar hch]
      exact Bool.false_ne_true
  have htake : (name.chars ++ '(' :: rest).takeWhile isNameChar = name.chars := by
    rw [List.takeWhile_append_of_pos name.allowed, List.takeWhile_cons_of_neg (by decide),
      List.append_nil]
  have hdrop : (name.chars ++ '(' :: rest).dropWhile isNameChar = '(' :: rest := by
    rw [List.dropWhile_append_of_pos name.allowed, List.dropWhile_cons_of_neg (by decide)]
  have hempty : name.chars.isEmpty = false := by
    rw [List.isEmpty_eq_false_iff]
    exact name.nonempty
  simp only [readName, skip, run, h, hspacing, htake, hdrop, hempty]
  exact ⟨rfl, trivial⟩

/-- Text that begins with neither a blank nor a brace. -/
def Starts (rest : List Char) : Prop :=
  ∀ c ∈ rest.head?, isBlank c = false ∧ c ≠ '\x7b' ∧ c ≠ '\x7d'

theorem starts_of_code {code : Char} (h : code ∈ codeMarks) (rest : List Char) :
    Starts (code :: rest) := by
  have hall : codeMarks.all fun c => isBlank c = false ∧ c ≠ '\x7b' ∧ c ≠ '\x7d' := by
    decide
  intro c hc
  cases hc
  exact of_decide_eq_true (List.all_eq_true.mp hall code h)

theorem starts_write (n : Node) (rest : List Char) : Starts (n.write ++ rest) := by
  obtain ⟨code, hcode, tail, hwrite⟩ := n.exists_write_eq
  rw [hwrite, List.cons_append]
  exact starts_of_code hcode _

theorem starts_writeAll (nodes : List Node) : Starts (writeAll nodes) := by
  cases nodes with
  | nil =>
      rw [writeAll]
      exact nofun
  | cons n nodes =>
      rw [writeAll]
      exact starts_write n _

/-- There is no body where the next statement begins. -/
theorem Cursor.readBody_of_starts {c : Cursor} (h : Starts c.rest) :
    c.readBody.1 = .absent ∧ c.readBody.2.rest = c.rest := by
  have hblank : c.rest.dropWhile isBlank = c.rest := by
    rcases hrest : c.rest with _ | ⟨ch, rest⟩
    · rfl
    · have hch := (h ch (by rw [hrest]; rfl)).1
      rw [List.dropWhile_cons_of_neg]
      rw [hch]
      exact Bool.false_ne_true
  have hother := readBody_of_other (c := c) (by rw [hblank]; exact fun ch hch => (h ch hch).2)
  rw [hother.1, hother.2, hblank]
  exact ⟨rfl, rfl⟩

/-- Reading a body goes through what is written. -/
theorem compounding_passes : Compounding (Passes .curly fun _ => false) := by
  have hname : ∀ c, isNameChar c = true → c ≠ '\x7b' ∧ c ≠ '\x7d' := by
    rintro c hc
    refine ⟨?_, ?_⟩ <;> (rintro rfl; cases hc)
  have hmark : ∀ c ∈ codeMarks ++ ['(', ',', ')'], c ≠ '\x7b' ∧ c ≠ '\x7d' := by
    intro c hc
    have hall : (codeMarks ++ ['(', ',', ')']).all fun c => c ≠ '\x7b' ∧ c ≠ '\x7d' := by decide
    exact of_decide_eq_true (List.all_eq_true.mp hall c hc)
  exact
    { nil := .nil
      append := .append
      code := fun c hc =>
        have h := hmark c (List.mem_append_left _ hc)
        .singleton rfl h.1 h.2
      list := fun c hc =>
        have h := hmark c (List.mem_append_right _ hc)
        .singleton rfl h.1 h.2
      name := fun name => .of_forall fun c hc => ⟨rfl, hname c (name.allowed c hc)⟩
      param := fun p => .of_forall fun c hc => ⟨rfl, (p.inLine c hc).1, (p.inLine c hc).2.1⟩
      inBraces := fun hs => hs.enclosed rfl rfl }

/-- The braces of a written skeleton are those of its bodies. -/
theorem passes_writeAll (nodes : List Node) :
    Passes .curly (fun _ => false) (writeAll nodes) :=
  compounding_passes.writeAll nodes

/-- The code of a plain node. -/
def Plain.code : Plain → Code
  | .turn clockwise => .turn clockwise
  | .heading => .heading
  | .move penDown => .move penDown
  | .home => .home
  | .push => .push
  | .pop => .pop
  | .step => .step
  | .color => .color
  | .width => .width
  | .flush mode => .flush mode
  | .background => .background
  | .limit => .limit

theorem Plain.ofChar?_symbol (p : Plain) : Code.ofChar? p.symbol = some p.code := by
  cases p with
  | turn clockwise => cases clockwise <;> rfl
  | move penDown => cases penDown <;> rfl
  | flush mode => cases mode <;> rfl
  | _ => rfl

/-- What a node is cut into, places apart. -/
def Node.statement : Node → Statement
  | .plain code params =>
    ⟨code.code, none, if code.takesParams then listed params else {}, .absent, ⟨0, 0⟩⟩
  | .assign name value others =>
    ⟨.assign, some name.string, listed (value.toParamText :: others), .absent, ⟨0, 0⟩⟩
  | .loop params body => ⟨.loop, none, listed params, .block ⟨0, writeAll body, true⟩, ⟨0, 0⟩⟩
  | .condition params body =>
    ⟨.condition, none, listed params, .block ⟨0, writeAll body, true⟩, ⟨0, 0⟩⟩
  | .define name params body =>
    ⟨.procedure, some name.string, listed params, .block ⟨0, writeAll body, true⟩, ⟨0, 0⟩⟩
  | .call name params => ⟨.procedure, some name.string, listed params, .absent, ⟨0, 0⟩⟩

theorem outline_of_read {ch : Char} {code : Code} {text rest : List Char} {s : Statement}
    (hcode : Code.ofChar? ch = some code)
    (hread : (Statement.read code ⟨1, text⟩).1.unplaced = s ∧
      (Statement.read code ⟨1, text⟩).2.rest = rest) :
    outline (ch :: text) = .statement s :: outline rest := by
  rw [outline_cons, Item.read, hcode]
  simp only [Option.map_some, Option.toList_some, Item.unplaced, hread.1, hread.2]
  rfl

-- Which readers a statement goes through depends on its code alone. For each code they
-- are the ones that its parts were written for, one after another.
section

variable {c : Cursor} {rest : List Char}

theorem Statement.read_plain (code : Plain) (params : List ParamText)
    (h : c.rest = (if code.takesParams then writeParams params else []) ++ rest) :
    (Statement.read code.code c).1.unplaced = (Node.plain code params).statement ∧
      (Statement.read code.code c).2.rest = rest := by
  cases htakes : code.takesParams with
  | true =>
      rw [htakes, if_pos rfl] at h
      have hparams := Cursor.readParams_written params h
      have hread : Statement.read code.code c =
          (⟨code.code, none, c.readParams.1, .absent, ⟨c.pos - 1, c.readParams.2.pos⟩⟩,
            c.readParams.2) := by
        cases code <;> first | rfl | cases htakes
      rw [hread, Statement.unplaced, Node.statement, htakes, if_pos rfl, hparams.1, hparams.2]
      exact ⟨rfl, rfl⟩
  | false =>
      rw [htakes, if_neg Bool.false_ne_true, List.nil_append] at h
      have hread : Statement.read code.code c =
          (⟨code.code, none, {}, .absent, ⟨c.pos - 1, c.pos⟩⟩, c) := by
        cases code <;> first | rfl | cases htakes
      rw [hread, Statement.unplaced, Node.statement, htakes, if_neg Bool.false_ne_true]
      exact ⟨rfl, h⟩

theorem Statement.read_assign (name : Name) (value : ValueText) (others : List ParamText)
    (h : c.rest = name.chars ++ (writeParams (value.toParamText :: others) ++ rest)) :
    (Statement.read .assign c).1.unplaced = (Node.assign name value others).statement ∧
      (Statement.read .assign c).2.rest = rest := by
  have hname := Cursor.readName_written name h
  have hparams := Cursor.readParams_written _ hname.2
  have hread : Statement.read .assign c =
      (⟨.assign, c.readName.1, c.readName.2.readParams.1, .absent,
        ⟨c.pos - 1, c.readName.2.readParams.2.pos⟩⟩, c.readName.2.readParams.2) := rfl
  rw [hread, Statement.unplaced, Node.statement, hname.1, hparams.1, hparams.2]
  exact ⟨rfl, rfl⟩

/-- A loop or a condition is read with whatever the reader of its body takes. -/
theorem Statement.read_opened {code : Code} (hcode : code = .loop ∨ code = .condition)
    (params : List ParamText) {text : List Char}
    (h : c.rest = writeParams params ++ '\x7b' :: text) :
    let e := Enclosed.read .curly (fun _ => false) text
    (Statement.read code c).1.unplaced =
        ⟨code, none, listed params, .block ⟨0, e.inside, e.closed⟩, ⟨0, 0⟩⟩ ∧
      (Statement.read code c).2.rest = e.rest := by
  have hparams := Cursor.readParams_written params h
  have hbody := Cursor.readBody_opened hparams.2
  have hread : Statement.read code c =
      (⟨code, none, c.readParams.1, c.readParams.2.readBody.1,
        ⟨c.pos - 1, c.readParams.2.readBody.2.pos⟩⟩, c.readParams.2.readBody.2) := by
    rcases hcode with rfl | rfl <;> rfl
  rw [hread, Statement.unplaced, hparams.1, hbody.1, hbody.2]
  exact ⟨rfl, rfl⟩

theorem Statement.read_block {code : Code} (hcode : code = .loop ∨ code = .condition)
    (params : List ParamText) {text : List Char}
    (hpasses : Passes .curly (fun _ => false) text)
    (h : c.rest = writeParams params ++ (inBraces text ++ rest)) :
    (Statement.read code c).1.unplaced =
        ⟨code, none, listed params, .block ⟨0, text, true⟩, ⟨0, 0⟩⟩ ∧
      (Statement.read code c).2.rest = rest := by
  rw [inBraces, List.cons_append, List.append_assoc] at h
  have hread : Enclosed.read .curly (fun _ => false) (text ++ '\x7d' :: rest) =
      ⟨text, true, rest⟩ :=
    hpasses.read_eq rfl rest
  have hopened := Statement.read_opened hcode params h
  rw [hopened.1, hopened.2, List.singleton_append, hread]
  exact ⟨rfl, rfl⟩

theorem Statement.read_procedure (c : Cursor) :
    Statement.read .procedure c =
      (⟨.procedure, c.readName.1, c.readName.2.readParams.1,
        c.readName.2.readParams.2.readBody.1,
        ⟨c.pos - 1, c.readName.2.readParams.2.readBody.2.pos⟩⟩,
        c.readName.2.readParams.2.readBody.2) := rfl

theorem Statement.read_define (name : Name) (params : List ParamText) {text : List Char}
    (hpasses : Passes .curly (fun _ => false) text)
    (h : c.rest = name.chars ++ (writeParams params ++ (inBraces text ++ rest))) :
    (Statement.read .procedure c).1.unplaced =
        ⟨.procedure, some name.string, listed params, .block ⟨0, text, true⟩, ⟨0, 0⟩⟩ ∧
      (Statement.read .procedure c).2.rest = rest := by
  have hname := Cursor.readName_written name h
  have hparams := Cursor.readParams_written params hname.2
  have hbody := Cursor.readBody_written hpasses hparams.2
  rw [Statement.read_procedure, Statement.unplaced, hname.1, hparams.1, hbody.1, hbody.2]
  exact ⟨rfl, rfl⟩

theorem Statement.read_call (name : Name) (params : List ParamText) (hrest : Starts rest)
    (h : c.rest = name.chars ++ (writeParams params ++ rest)) :
    (Statement.read .procedure c).1.unplaced = (Node.call name params).statement ∧
      (Statement.read .procedure c).2.rest = rest := by
  have hname := Cursor.readName_written name h
  have hparams := Cursor.readParams_written params hname.2
  have hbody := Cursor.readBody_of_starts (c := c.readName.2.readParams.2)
    (by rw [hparams.2]; exact hrest)
  rw [Statement.read_procedure, Statement.unplaced, Node.statement, hname.1, hparams.1, hbody.1,
    hbody.2, hparams.2]
  exact ⟨rfl, rfl⟩

end

-- A statement with a body is cut off where its body ends, if reading goes through the body.
section

variable {text : List Char} (hpasses : Passes .curly (fun _ => false) text)
  (params : List ParamText) (rest : List Char)
include hpasses

theorem outline_loop :
    outline ('R' :: (writeParams params ++ (inBraces text ++ rest))) =
      .statement ⟨.loop, none, listed params, .block ⟨0, text, true⟩, ⟨0, 0⟩⟩ :: outline rest :=
  outline_of_read rfl (Statement.read_block (.inl rfl) params hpasses rfl)

theorem outline_condition :
    outline ('?' :: (writeParams params ++ (inBraces text ++ rest))) =
      .statement ⟨.condition, none, listed params, .block ⟨0, text, true⟩, ⟨0, 0⟩⟩ ::
        outline rest :=
  outline_of_read rfl (Statement.read_block (.inr rfl) params hpasses rfl)

theorem outline_define (name : Name) :
    outline ('@' :: (name.chars ++ (writeParams params ++ (inBraces text ++ rest)))) =
      .statement ⟨.procedure, some name.string, listed params, .block ⟨0, text, true⟩, ⟨0, 0⟩⟩ ::
        outline rest :=
  outline_of_read rfl (Statement.read_define name params hpasses rfl)

end

/-- A node is cut off as one statement. -/
theorem outline_write (n : Node) {rest : List Char} (hrest : Starts rest) :
    outline (n.write ++ rest) = .statement n.statement :: outline rest := by
  cases n with
  | plain code params =>
      rw [Node.write, List.cons_append]
      exact outline_of_read code.ofChar?_symbol (Statement.read_plain code params rfl)
  | assign name value others =>
      rw [Node.write, List.cons_append, List.append_assoc]
      exact outline_of_read rfl (Statement.read_assign name value others rfl)
  | loop params body =>
      rw [Node.write, List.cons_append, List.append_assoc]
      exact outline_loop (passes_writeAll body) params rest
  | condition params body =>
      rw [Node.write, List.cons_append, List.append_assoc]
      exact outline_condition (passes_writeAll body) params rest
  | define name params body =>
      rw [Node.write, List.cons_append, List.append_assoc, List.append_assoc]
      exact outline_define (passes_writeAll body) params rest name
  | call name params =>
      rw [Node.write, List.cons_append, List.append_assoc]
      exact outline_of_read rfl (Statement.read_call name params hrest rfl)

/-- A written skeleton is cut into its nodes. -/
theorem outline_writeAll (nodes : List Node) :
    outline (writeAll nodes) = nodes.map fun n => .statement n.statement := by
  induction nodes with
  | nil =>
      rw [writeAll, outline_nil]
      rfl
  | cons n nodes ih =>
      rw [writeAll, outline_write n (starts_writeAll nodes), ih]
      rfl

/-- Nothing is wrong with the brackets. -/
theorem proper : (Noted.report []).Finds () [] := ⟨rfl, rfl⟩

theorem ParamText.finds_expression (p : ParamText) :
    p.param.expression.Finds p.expression p.problems :=
  ⟨rfl, Fault.map_fault_allAt _ _⟩

theorem ParamText.finds_name (p : ParamText) : p.param.name.Finds p.formal p.formalProblems := by
  unfold Param.name formal formalProblems ParamText.param
  cases isName p.text with
  | false => exact ⟨rfl, rfl⟩
  | true =>
      simp only [if_true]
      split
      next rest htext =>
        rw [htext]
        exact ⟨rfl, rfl⟩
      next hdollar =>
        have hhead : p.text.head? ≠ some '$' := by
          intro hhead
          obtain ⟨rest, htext⟩ := List.head?_eq_some_iff.mp hhead
          exact hdollar rest htext
        rw [if_neg hhead]
        exact ⟨rfl, rfl⟩

section

variable (params : List ParamText)

theorem finds_firstExpression :
    (listed params).firstExpression.Finds (params.map ParamText.expression).head?.join
      ((params.take 1).flatMap ParamText.problems) := by
  cases params with
  | nil => exact ⟨rfl, rfl⟩
  | cons p params =>
      have hp := p.finds_expression
      rw [List.take_succ_cons, List.take_zero, List.flatMap_cons, List.flatMap_nil,
        List.append_nil]
      exact hp

theorem finds_firstArg (default : Scalar) :
    ((listed params).firstArg default).Finds (firstArg params default)
      ((params.take 1).flatMap ParamText.problems) :=
  (finds_firstExpression params).returns rfl

theorem finds_args (default : Scalar) :
    ((listed params).args default).Finds (params.map fun p => .ofOption p.expression default)
      (params.flatMap ParamText.problems) :=
  .traverse (fun p => p.finds_expression.returns rfl) params

theorem finds_colorArgs :
    (listed params).colorArgs.Finds
      (.ofExpressions ((params.map ParamText.expression).filterMap id))
      (params.flatMap ParamText.problems) :=
  (Noted.Finds.traverse ParamText.finds_expression params).returns rfl

theorem finds_names :
    (listed params).names.Finds (params.map ParamText.formal)
      (params.flatMap ParamText.formalProblems) :=
  .traverse ParamText.finds_name params

end

/-- The instruction of a plain node is the one that its code stands for. -/
theorem Plain.finds_instruction (code : Plain) (params : List ParamText) :
    (Node.plain code params).statement.instruction.Finds
      (some (code.instruction (params.map ParamText.expression)))
      ((code.examined params).flatMap ParamText.problems) := by
  cases code with
  | turn => exact (finds_firstExpression params).returns rfl
  | heading | step | width | limit => exact (finds_firstArg params _).returns rfl
  | color | background => exact (finds_colorArgs params).returns rfl
  | move penDown =>
      have hmovement :
          Statement.movement penDown (params.map fun p => .ofOption p.expression 0.0) =
            (Plain.move penDown).instruction (params.map ParamText.expression) := by
        rcases params with _ | ⟨p, _ | ⟨q, params⟩⟩ <;> rfl
      rw [← hmovement]
      exact (finds_args params 0.0).returns rfl
  | home | push | pop | flush => exact ⟨rfl, rfl⟩

theorem Plain.finds_command (code : Plain) (params : List ParamText)
    (nested : Block → Noted (List Command)) :
    ((Node.plain code params).statement.command nested).Finds
      (some (.basic (code.instruction (params.map ParamText.expression))))
      ((code.examined params).flatMap ParamText.problems) := by
  have hinstruction := code.finds_instruction params
  cases code <;> exact proper.bind (hinstruction.returns rfl)

theorem finds_body {nested : Block → Noted (List Command)} {text : List Char}
    {commands : List Command} {causes : List Fault} (span : Span)
    (h : (nested ⟨0, text, true⟩).Finds commands causes) :
    ((Body.block ⟨0, text, true⟩).commands nested span).Finds (some commands) causes :=
  proper.bind (h.returns rfl)

theorem finds_commandsOf_cons {nested : Block → Noted (List Command)} {item : Item}
    {items : List Item} {command : Command} {commands : List Command}
    {causes causes' : List Fault} (hitem : (item.command nested).Finds (some command) causes)
    (hitems : (commandsOf nested items).Finds commands causes') :
    (commandsOf nested (item :: items)).Finds (command :: commands) (causes ++ causes') := by
  refine ⟨?_, ?_⟩
  · have hvalue := hitems.value
    rw [value_commandsOf] at hvalue ⊢
    rw [List.filterMap_cons, hitem.value, hvalue]
  · rw [causes_commandsOf, List.flatMap_cons, hitem.causes, ← causes_commandsOf, hitems.causes]

/-- A body is read with room for one level less. -/
theorem finds_nestedAt {text : List Char} {levels room : Nat} {commands : List Command}
    {causes : List Fault} (hroom : levels + 1 ≤ room)
    (h : ∀ left, levels ≤ left →
      (commandsOf (nestedAt left) (outline text)).Finds commands causes) :
    (nestedAt room ⟨0, text, true⟩).Finds commands causes := by
  cases room with
  | zero => exact absurd hroom (Nat.not_succ_le_zero _)
  | succ left =>
      have hbody := h left (Nat.le_of_succ_le_succ hroom)
      exact .of_alike (alike_commandsAt left 0 text) hbody

-- Statements with a body, where the body was found to be some commands.
section

variable {nested : Block → Noted (List Command)} {text : List Char} {commands : List Command}
  {causes : List Fault} (params : List ParamText)
  (h : (nested ⟨0, text, true⟩).Finds commands causes)
include h

theorem finds_loop :
    ((⟨.loop, none, listed params, .block ⟨0, text, true⟩, ⟨0, 0⟩⟩ : Statement).command
      nested).Finds (some (.loop (firstArg params 0.0) commands))
      ((params.take 1).flatMap ParamText.problems ++ causes) :=
  proper.bind ((finds_firstArg params 0.0).bind ((finds_body _ h).returns rfl))

theorem finds_condition :
    ((⟨.condition, none, listed params, .block ⟨0, text, true⟩, ⟨0, 0⟩⟩ : Statement).command
      nested).Finds (some (.condition (firstArg params 0.0) commands))
      ((params.take 1).flatMap ParamText.problems ++ causes) :=
  proper.bind ((finds_firstArg params 0.0).bind ((finds_body _ h).returns rfl))

/-- The formal parameters are looked at after the body. -/
theorem finds_define (name : Name) :
    ((⟨.procedure, some name.string, listed params, .block ⟨0, text, true⟩, ⟨0, 0⟩⟩ :
      Statement).command nested).Finds
      (some (.define name.string (params.map ParamText.formal) commands))
      (causes ++ params.flatMap ParamText.formalProblems) :=
  proper.bind ((finds_body _ h).bind ((finds_names params).returns rfl))

end

theorem ValueText.finds_firstExpression (value : ValueText) (others : List ParamText) :
    (listed (value.toParamText :: others)).firstExpression.Finds (some value.value)
      value.problems := by
  have hvalue : value.toParamText.expression = some value.value := (Option.some_get _).symm
  rw [← hvalue]
  exact value.toParamText.finds_expression

mutual

/-- A node is read as the command that is meant by it, where there is room for its
    bodies. -/
theorem Node.finds_command : (n : Node) → (room : Nat) → n.nesting ≤ room →
    (n.statement.command (nestedAt room)).Finds (some n.command) n.causes
  | .plain code params, room, _ => by
      rw [Node.command, Node.causes]
      exact code.finds_command params (nestedAt room)
  | .assign name value others, room, _ => by
      rw [Node.command, Node.causes]
      exact proper.bind ((value.finds_firstExpression others).returns rfl)
  | .loop params body, room, h => by
      rw [Node.nesting] at h
      rw [Node.command, Node.causes]
      exact finds_loop params (finds_nestedAt h (finds_commandsOf body))
  | .condition params body, room, h => by
      rw [Node.nesting] at h
      rw [Node.command, Node.causes]
      exact finds_condition params (finds_nestedAt h (finds_commandsOf body))
  | .define name params body, room, h => by
      rw [Node.nesting] at h
      rw [Node.command, Node.causes]
      exact finds_define params (finds_nestedAt h (finds_commandsOf body)) name
  | .call name params, room, _ => by
      -- No body follows, and that is what makes it a call.
      have habsent : (Noted.pure none : Noted (Option (List Command))).Finds none [] := ⟨rfl, rfl⟩
      rw [Node.command, Node.causes]
      exact proper.bind (habsent.bind ((finds_args params 0.0).returns rfl))

theorem finds_commandsOf : (nodes : List Node) → (room : Nat) → nestingAll nodes ≤ room →
    (commandsOf (nestedAt room) (outline (writeAll nodes))).Finds (commandAll nodes)
      (causeAll nodes)
  | [], room, _ => by
      rw [outline_writeAll, commandAll, causeAll]
      exact ⟨rfl, rfl⟩
  | n :: nodes, room, h => by
      -- The nodes share the room; none of them takes any from the others.
      rw [nestingAll] at h
      have hn := Node.finds_command n room (by omega)
      have hnodes := finds_commandsOf nodes room (by omega)
      rw [outline_writeAll, List.map_cons, ← outline_writeAll, commandAll, causeAll]
      exact finds_commandsOf_cons hn hnodes

end

/-- A skeleton that is written down is read back: one command for each node, in order
    and with the bodies as they were, and nothing is wrong but what is wrong with the
    parameter texts themselves. -/
theorem parse_writeAll (nodes : List Node) (hnesting : nestingAll nodes ≤ 200) :
    (Program.parse (String.ofList (writeAll nodes))).value = nodes.map Node.command ∧
      (Program.parse (String.ofList (writeAll nodes))).causes = nodes.flatMap Node.causes := by
  have hfinds : (Program.parse (String.ofList (writeAll nodes))).Finds (commandAll nodes)
      (causeAll nodes) := by
    rw [Program.parse, String.toList_ofList, upperCase_writeAll]
    exact .of_alike (alike_commandsAt _ 0 (writeAll nodes)) (finds_commandsOf nodes _ hnesting)
  rw [← commandAll_eq_map, ← causeAll_eq_flatMap]
  exact ⟨hfinds.value, hfinds.causes⟩

-- A procedure with a loop in it, a value and a call. Some parameters have commas inside
-- of brackets.

def pairText : ParamText :=
  ⟨['(', '$', 'N', ',', '2', ')'], by decide, by decide, by decide, by decide, by decide,
    by simp⟩

def variableText : ValueText :=
  ⟨⟨['$', 'N'], by decide, by decide, by decide, by decide, by decide, by simp⟩,
    by decide +kernel⟩

def shortName : Name := ⟨['P'], by decide, List.all_eq_true.mp rfl, by decide⟩

def loopInProcedure : List Node :=
  [.define shortName [variableText.toParamText]
      [.loop [pairText] [.plain (.move true) [pairText, pairText], .plain .home []]],
    .assign shortName variableText [],
    .call shortName []]

theorem parse_writeAll_loop :
    nestingAll loopInProcedure ≤ 200 ∧
      (Program.parse "@P($N)\x7bR(($N,2))\x7bD(($N,2),($N,2))H\x7d\x7d$P($N)@P()").value =
        loopInProcedure.map Node.command ∧
      (Program.parse "@P($N)\x7bR(($N,2))\x7bD(($N,2),($N,2))H\x7d\x7d$P($N)@P()").causes =
        loopInProcedure.flatMap Node.causes := by
  have hnesting : nestingAll loopInProcedure ≤ 200 := by decide
  have htext : String.ofList (writeAll loopInProcedure) =
      "@P($N)\x7bR(($N,2))\x7bD(($N,2),($N,2))H\x7d\x7d$P($N)@P()" := by
    decide
  rw [← htext]
  exact ⟨hnesting, parse_writeAll loopInProcedure hnesting⟩

end TurtleGraphics
