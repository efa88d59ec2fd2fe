import TurtleGraphics.Proofs.Accounting
import TurtleGraphics.Proofs.Places

/-!
# Where Problems Are Reported

Whatever is wrong with a program is reported at a place in its text. The place is that
of the statement, of a parameter, of a list or of a body, so it holds at least one
character and lies inside of the text. What is wrong inside of a body is found by
reading the body as a text of its own, so its places lie inside of the body, and its
problems stand together in the log.

Problems met while a program runs have no place. They come after all the others, since
reading is over before the first command runs.

## Main definitions

* `Noted.Located`: All problems lie between two places.
* `BodyOf`: A body that is read in reading a text.
* `Log.Continues`: A log with problems behind it that have no place.

## Theorems

* `Param.reportLocated_expression`: Problems of a parameter get their place afterwards.
* `Statement.located_command`: Problems of a statement lie where it stands.
* `located_commandsAt`: Problems of a text lie inside of it.
* `BodyOf.faults_infix`: The problems of a body stand together.
* `compositional_continues`: Running reports nothing with a place.
* `load_located`: Where the problems of a program are reported.
-/

namespace TurtleGraphics

namespace Noted

variable {α β : Type} {lo hi : Nat}

/-- All problems met in finding the value lie between two places. -/
def Located (lo hi : Nat) (x : Noted α) : Prop := ∀ f ∈ x.faults, f.span.Inside lo hi

theorem located_pure (a : α) : (Pure.pure a : Noted α).Located lo hi := nofun

theorem located_singleton (a : α) (f : Fault) {span : Span} (h : span.Inside lo hi) :
    (Noted.mk a [⟨f, span⟩]).Located lo hi := by
  intro g hg
  rcases List.mem_singleton.mp hg with rfl
  exact h

theorem Located.bind {x : Noted α} {f : α → Noted β} (hx : x.Located lo hi)
    (hf : (f x.value).Located lo hi) : (x >>= f).Located lo hi := by
  intro fault hfault
  rcases List.mem_append.mp hfault with h | h
  · exact hx fault h
  · exact hf fault h

theorem Located.returns {x : Noted α} (hx : x.Located lo hi) (f : α → β) :
    (x >>= fun a => Pure.pure (f a)).Located lo hi :=
  hx.bind (located_pure _)

theorem located_traverse {f : α → Noted β} {xs : List α} (h : ∀ x ∈ xs, (f x).Located lo hi) :
    (traverse f xs).Located lo hi := by
  intro fault hfault
  rcases List.mem_flatMap.mp hfault with ⟨y, hy, hmem⟩
  rcases List.mem_map.mp hy with ⟨x, hx, rfl⟩
  exact h x hx fault hmem

theorem Located.mono {x : Noted α} {lo' hi' : Nat} (h : x.Located lo hi) (hlo : lo' ≤ lo)
    (hhi : hi ≤ hi') : x.Located lo' hi' :=
  fun f hf => (h f hf).mono hlo hhi

end Noted

section

variable {lo hi : Nat}

theorem Param.located_expression {p : Param} (h : p.span.Inside lo hi) :
    p.expression.Located lo hi := by
  intro f hf
  rcases List.mem_map.mp hf with ⟨g, -, rfl⟩
  exact h

/-- A parameter is reported like its expression, with the place of the parameter filled in
    where the expression has none. -/
theorem Param.reportLocated_expression (l : Log) (p : Param) :
    l.reportLocated p.expression.faults =
      (l.reportAll (Expression.parse p.text).2).locateSince l.size p.span :=
  (l.locateSince_reportAll (Expression.parse p.text).2 p.span).symm

theorem Param.located_name {p : Param} (h : p.span.Inside lo hi) : p.name.Located lo hi := by
  unfold Param.name
  split
  · split <;> exact Noted.located_pure _
  · exact Noted.located_singleton _ _ h

namespace Params.Placed

variable {ps : Params} (h : ps.Placed lo hi)
include h

theorem firstExpression : ps.firstExpression.Located lo hi := by
  obtain ⟨items, ending⟩ := ps
  cases items with
  | nil => exact Noted.located_pure _
  | cons p _ => exact Param.located_expression (h.items p List.mem_cons_self)

theorem firstArg (default : Scalar) : (ps.firstArg default).Located lo hi :=
  h.firstExpression.returns _

theorem args (default : Scalar) : (ps.args default).Located lo hi :=
  Noted.located_traverse fun p hp => (Param.located_expression (h.items p hp)).returns _

theorem colorArgs : ps.colorArgs.Located lo hi :=
  (Noted.located_traverse fun p hp => Param.located_expression (h.items p hp)).returns _

theorem names : ps.names.Located lo hi :=
  Noted.located_traverse fun p hp => Param.located_name (h.items p hp)

end Params.Placed

end

/-- The brackets of a parameter list are reported at the list or at the statement. -/
theorem Statement.Placed.bracketFaults {c : Cursor} {s : Statement} (h : s.Placed c) :
    (Noted.report (s.params.bracketFaults s.span)).Located c.pos c.stop := by
  unfold Params.bracketFaults
  cases hending : s.params.ending with
  | proper => exact Noted.located_pure _
  | unclosed list => exact Noted.located_singleton _ _ (h.params.ending list hending)
  | unopened =>
      rcases h.span with ⟨-, hproper⟩ | hspan
      · rw [hproper] at hending
        cases hending
      · exact Noted.located_singleton _ _ hspan

section

variable {lo hi : Nat} {s : Statement}

theorem Statement.located_instruction (hparams : s.params.Placed lo hi) :
    s.instruction.Located lo hi := by
  unfold Statement.instruction
  cases s.code with
  | turn => exact hparams.firstExpression.returns _
  | heading | step | width | limit => exact (hparams.firstArg _).returns _
  | move => exact (hparams.args _).returns _
  | color | background => exact hparams.colorArgs.returns _
  | _ => exact Noted.located_pure _

theorem Statement.located_refuse (hspan : s.span.Inside lo hi) (f : Fault) :
    (s.refuse f).Located lo hi :=
  Noted.located_singleton _ _ hspan

theorem Statement.located_assignment (hspan : s.span.Inside lo hi)
    (hparams : s.params.Placed lo hi) : s.assignment.Located lo hi := by
  refine hparams.firstExpression.bind ?_
  cases s.name with
  | none => exact s.located_refuse hspan _
  | some name =>
      cases s.params.firstExpression.value with
      | none => exact s.located_refuse hspan _
      | some value => exact Noted.located_pure _

theorem Statement.located_procedure (hspan : s.span.Inside lo hi)
    (hparams : s.params.Placed lo hi) (body : Option (List Command)) :
    (s.procedure body).Located lo hi := by
  unfold Statement.procedure
  cases s.name with
  | none => exact s.located_refuse hspan _
  | some name =>
      cases body with
      | none => exact (hparams.args _).returns _
      | some body => exact hparams.names.returns _

end

section

variable {nested : Block → Noted (List Command)} {c : Cursor}

theorem Body.located_commands {body : Body} {span : Span} (hspan : span.Inside c.pos c.stop)
    (hbody : body.Placed c) (hnested : ∀ b : Block, b.Placed c → (nested b).Located c.pos c.stop) :
    (body.commands nested span).Located c.pos c.stop := by
  cases body with
  | absent => exact Noted.located_pure _
  | unopened => exact Noted.located_singleton _ _ hspan
  | block b =>
      have hplaced := hbody b rfl
      refine Noted.Located.bind ?_ ((hnested b hplaced).returns _)
      cases b.closed with
      | true => exact Noted.located_pure _
      | false => exact Noted.located_singleton _ _ hplaced.openSpan

/-- The problems of a statement lie in the text it stands in, if those of its body
    do. -/
theorem Statement.located_command {s : Statement} (h : s.Placed c)
    (hnested : ∀ b : Block, b.Placed c → (nested b).Located c.pos c.stop) :
    (s.command nested).Located c.pos c.stop := by
  refine h.bracketFaults.bind ?_
  rcases h.span with ⟨hcomment, -⟩ | hspan
  · simp only [hcomment]
    exact (Statement.located_instruction h.params).returns _
  · have hbody := Body.located_commands hspan h.body hnested
    cases s.code with
    | loop => exact (h.params.firstArg _).bind (hbody.returns _)
    | condition =>
        refine (h.params.firstArg _).bind (hbody.bind ?_)
        cases (s.body.commands nested s.span).value with
        | none => exact s.located_refuse hspan _
        | some body => exact Noted.located_pure _
    | procedure => exact hbody.bind (s.located_procedure hspan h.params _)
    | assign => exact s.located_assignment hspan h.params
    | _ => exact (Statement.located_instruction h.params).returns _

theorem Item.located_command {item : Item} (h : item.Placed c)
    (hnested : ∀ b : Block, b.Placed c → (nested b).Located c.pos c.stop) :
    (item.command nested).Located c.pos c.stop := by
  cases item with
  | statement s => exact Statement.located_command h hnested
  | unknown ch pos => exact Noted.located_singleton _ _ ⟨h.1, Nat.lt_succ_self pos, h.2⟩

end

/-- The problems of a text lie inside of it, if those of the bodies in it do. -/
theorem located_commandsOf {nested : Block → Noted (List Command)} {start : Nat}
    {text : List Char}
    (hnested : ∀ b : Block, b.Placed ⟨start, text⟩ →
      (nested b).Located start (start + text.length)) :
    (commandsOf nested (statements start text)).Located start (start + text.length) := by
  refine Noted.Located.returns (Noted.located_traverse fun item hitem => ?_) _
  exact Item.located_command (Item.placed_of_mem_statements hitem) hnested

/-- The problems of a text lie inside of it, by induction on how deep bodies may be
    nested. -/
theorem located_commandsAt (room start : Nat) (text : List Char) :
    (commandsAt room start text).Located start (start + text.length) := by
  induction room generalizing start text with
  | zero =>
      -- A body that is too deep is not read; its own place is reported.
      rw [commandsAt_eq]
      exact located_commandsOf fun b hb => Noted.located_singleton _ _ hb.span
  | succ room ih =>
      rw [commandsAt_eq]
      refine located_commandsOf fun b hb => ?_
      exact (ih b.start b.text).mono hb.occupies.start_le hb.occupies.stop_le

/-- A body that is read in reading a text in which bodies may be nested `room` deep, and
    in which they may then be nested `left` deep. -/
inductive BodyOf : (room start : Nat) → List Char → (left : Nat) → Block → Prop where
  /-- The body of a statement of the text. -/
  | here {room start : Nat} {text : List Char} {s : Statement} {b : Block}
      (hs : Item.statement s ∈ statements start text) (hb : s.body = .block b) :
      BodyOf (room + 1) start text room b
  /-- A body inside of such a body. -/
  | inside {room start left : Nat} {text : List Char} {outer b : Block}
      (houter : BodyOf (room + 1) start text room outer)
      (hb : BodyOf room outer.start outer.text left b) : BodyOf (room + 1) start text left b

/-- The problems of the body of a statement stand together among those of the
    statement. -/
theorem Statement.faults_infix (nested : Block → Noted (List Command)) {c : Cursor}
    {s : Statement} {b : Block} (h : s.Placed c) (hb : s.body = .block b) :
    (nested b).faults <:+: (s.command nested).faults := by
  have hbody : (nested b).faults <:+: (s.body.commands nested s.span).faults := by
    rw [hb, Body.commands, Noted.faults_bind, Noted.faults_bind]
    exact ⟨_, _, List.append_assoc _ _ _⟩
  have hcode := h.hasBody b hb
  rw [Statement.command, Noted.faults_bind]
  refine List.IsInfix.trans ?_ (List.suffix_append _ _).isInfix
  -- Each of the three codes looks at the body, after the parameters or before them.
  cases heq : s.code with
  | loop | condition =>
      simp only [Noted.faults_bind]
      exact (hbody.trans (List.prefix_append _ _).isInfix).trans (List.suffix_append _ _).isInfix
  | procedure =>
      simp only [Noted.faults_bind]
      exact hbody.trans (List.prefix_append _ _).isInfix
  | _ =>
      rw [heq] at hcode
      cases hcode

theorem infix_faults_commandsOf {nested : Block → Noted (List Command)} {items : List Item}
    {item : Item} (h : item ∈ items) :
    (item.command nested).faults <:+: (commandsOf nested items).faults := by
  rcases List.append_of_mem h with ⟨before, behind, rfl⟩
  simp only [commandsOf, Noted.faults_bind, Noted.faults_pure, Noted.traverse, List.append_nil,
    List.flatMap_map, List.flatMap_append, List.flatMap_cons]
  exact ⟨_, _, List.append_assoc _ _ _⟩

namespace BodyOf

variable {room start left : Nat} {text : List Char} {b : Block}

/-- A body that is read stands in the text. -/
theorem occupies (h : BodyOf room start text left b) : b.Occupies start text := by
  induction h with
  | here hs hb => exact ((Item.placed_of_mem_statements hs).body _ hb).occupies
  | inside _ _ houter hinner => exact houter.trans hinner

/-- The problems of a body that is read stand together among those of the text. -/
theorem faults_infix (h : BodyOf room start text left b) :
    (commandsAt left b.start b.text).faults <:+: (commandsAt room start text).faults := by
  induction h with
  | @here room start text s b hs hb =>
      rw [commandsAt_eq (room + 1)]
      refine List.IsInfix.trans ?_ (infix_faults_commandsOf hs)
      exact Statement.faults_infix (nestedAt (room + 1)) (Item.placed_of_mem_statements hs) hb
  | inside _ _ houter hinner => exact hinner.trans houter

end BodyOf

/-- A log with problems behind it that have no place. -/
def Log.Continues (l l' : Log) : Prop :=
  ∃ late, l'.entries.toList = l.entries.toList ++ late ∧ ∀ d ∈ late, d.span = none

namespace Log.Continues

theorem refl (l : Log) : l.Continues l := ⟨[], (List.append_nil _).symm, nofun⟩

theorem trans {l l' l'' : Log} (h : l.Continues l') (h' : l'.Continues l'') :
    l.Continues l'' := by
  rcases h with ⟨late, heq, hlate⟩
  rcases h' with ⟨later, heq', hlater⟩
  refine ⟨late ++ later, ?_, ?_⟩
  · rw [heq', heq, List.append_assoc]
  · intro d hd
    exact (List.mem_append.mp hd).elim (hlate d) (hlater d)

theorem reportAll (l : Log) (faults : List Fault) : l.Continues (l.reportAll faults) :=
  ⟨_, l.toList_reportAll faults, List.forall_mem_map.mpr fun _ _ => rfl⟩

theorem report (l : Log) (f : Fault) : l.Continues (l.report f) := reportAll l [f]

end Log.Continues

/-- A way to run that reports nothing with a place. -/
def ReportsLate (f : Turtle → Progress) : Prop := ∀ t : Turtle, t.log.Continues (f t).turtle.log

theorem reportsLate_charge : ReportsLate Turtle.charge := by
  intro t
  cases h : t.charge with
  | running u =>
      rw [(Turtle.of_charge_running h).1]
      exact .refl t.log
  | stopped bound u =>
      rw [(Turtle.of_charge_stopped h).1]
      exact .refl t.log

theorem reportsLate_andThen {f g : Turtle → Progress} (hf : ReportsLate f) (hg : ReportsLate g) :
    ReportsLate fun t => (f t).andThen g := by
  intro t
  have hfirst := hf t
  change t.log.Continues ((f t).andThen g).turtle.log
  cases hft : f t with
  | running u =>
      rw [hft] at hfirst
      exact hfirst.trans (hg u)
  | stopped bound u =>
      rw [hft] at hfirst
      exact hfirst

theorem reportsLate_within {f : Turtle → Progress} (hf : ReportsLate f) (frame : Bindings) :
    ReportsLate fun t => t.within frame f := by
  simp only [Turtle.within_eq]
  refine reportsLate_andThen reportsLate_charge (fun t => ?_)
  rw [Progress.turtle_map]
  exact hf (t.entered frame)

/-- Running reports nothing with a place. -/
theorem compositional_continues : Compositional ReportsLate where
  running := fun t => .refl t.log
  andThen := reportsLate_andThen
  observe := by
    intro α x f hx hf t
    refine Log.Continues.trans ?_ (hf _ _)
    rcases Turtle.observe_eq_of_reading hx t with ⟨r, hr⟩
    rw [hr]
    exact .reportAll t.log _
  perform := by
    intro a
    refine reportsLate_andThen reportsLate_charge (fun t => ?_)
    change t.log.Continues (a.apply t).log
    rcases (Turtle.applied a t).log with hlog | hlog | hlog
    · rw [hlog]
      exact .refl t.log
    · rw [hlog]
      exact .report t.log _
    · rw [hlog]
      exact .report t.log _
  within := fun frame hf => reportsLate_within hf frame
  call := by
    intro run name args hrun
    refine reportsLate_andThen reportsLate_charge (fun t => ?_)
    cases t.procedures.get? name with
    | none => exact .report t.log _
    | some p =>
        by_cases hdepth : t.scopes.depth < t.allowedDepth
        · simp only [if_pos hdepth]
          exact reportsLate_within (hrun p.body) (p.frame args) t
        · simp only [if_neg hdepth]
          exact .refl t.log

/-- The log of a run: first what is wrong with the text, and then what has no place. -/
theorem exists_toList_log_run (o : Options) (source : String) :
    ∃ late, (run o source).log.entries.toList =
        (Program.parse source).faults.map LocatedFault.report ++ late ∧
      ∀ d ∈ late, d.span = none := by
  have hstart : (startTurtle o source).log.entries.toList =
      (Program.parse source).faults.map LocatedFault.report :=
    Log.toList_reportLocated {} (Program.parse source).faults
  have hprogram : (startTurtle o source).log.Continues (runProgram o source).turtle.log :=
    compositional_continues.runAll _ _
  have hsettled : (runProgram o source).turtle.log.Continues (runProgram o source).settled.log := by
    cases runProgram o source with
    | running t => exact .refl t.log
    | stopped bound t => exact .report t.log _
  rw [(run_eq_settled o source).1, ← hstart]
  exact hprogram.trans hsettled

/-- Where the problems of a program are reported. Reading a program leaves the log as it
    was and adds to it; all that is added is located in the upper-cased text. What is
    added in reading a body stands together and lies inside of the body, which is where
    it says in the text. In the log of a run, what has a place comes before what has
    none. -/
theorem load_located (t : Turtle) (source : String) :
    let text := Text.upperCase source.toList
    (∃ added, (t.load source).2.log.entries.toList = t.log.entries.toList ++ added ∧
        ∀ d ∈ added, ∃ span, d.span = some span ∧ span.Inside 0 text.length) ∧
      (∀ left b, BodyOf Program.maxNesting 0 text left b →
        b.text = (text.drop b.start).take b.text.length ∧ b.stop ≤ text.length ∧
          (commandsAt left b.start b.text).faults <:+: (Program.parse source).faults ∧
          ∀ f ∈ (commandsAt left b.start b.text).faults, f.span.Inside b.start b.stop) ∧
      ∀ o, ∃ late, (run o source).log.entries.toList =
          (Program.parse source).faults.map LocatedFault.report ++ late ∧
        (∀ d ∈ (Program.parse source).faults.map LocatedFault.report, d.span.isSome = true) ∧
        ∀ d ∈ late, d.span = none := by
  intro text
  refine ⟨⟨_, Log.toList_reportLocated t.log (Program.parse source).faults, ?_⟩, ?_, fun o => ?_⟩
  · refine List.forall_mem_map.mpr fun f hf => ⟨f.span, rfl, ?_⟩
    have hall := located_commandsAt Program.maxNesting 0 text
    rw [Nat.zero_add] at hall
    exact hall f hf
  · intro left b hb
    have hstop := hb.occupies.stop_le
    rw [Nat.zero_add] at hstop
    exact ⟨hb.occupies.text_eq, hstop, hb.faults_infix,
      located_commandsAt left b.start b.text⟩
  · rcases exists_toList_log_run o source with ⟨late, hlog, hlate⟩
    exact ⟨late, hlog, List.forall_mem_map.mpr fun _ _ => rfl, hlate⟩

/-- A loop whose body is a character that begins no command: the body is read, and its
    one problem lies inside of it. -/
theorem load_located_loop :
    let body : Block := ⟨5, ['Q'], true⟩
    BodyOf Program.maxNesting 0 (Text.upperCase "r(2)\x7bq\x7d".toList) 199 body ∧
      (commandsAt 199 5 ['Q']).faults = [⟨.unknownCommand 'Q', ⟨5, 6⟩⟩] ∧
      ∀ f ∈ (commandsAt 199 5 ['Q']).faults, f.span.Inside 5 6 := by
  intro body
  have htext : Text.upperCase "r(2)\x7bq\x7d".toList =
      ['R', '(', '2', ')', '\x7b', 'Q', '\x7d'] := by
    decide +kernel
  have hbody : BodyOf Program.maxNesting 0 (Text.upperCase "r(2)\x7bq\x7d".toList) 199 body := by
    have hmem : Item.statement
        ⟨.loop, none, ⟨[⟨['2'], ⟨2, 3⟩⟩], .proper⟩, .block body, ⟨0, 7⟩⟩ ∈
          statements 0 ['R', '(', '2', ')', '\x7b', 'Q', '\x7d'] := by
      rw [statements_cons]
      exact List.mem_append_left _ List.mem_cons_self
    rw [htext]
    exact .here hmem rfl
  have hfaults : (commandsAt 199 5 ['Q']).faults = [⟨.unknownCommand 'Q', ⟨5, 6⟩⟩] := by
    decide +kernel
  have hread := (load_located (Turtle.ofSize ⟨500.0, 500.0⟩ 100) "r(2)\x7bq\x7d").2.1 199 body hbody
  exact ⟨hbody, hfaults, hread.2.2.2⟩

end TurtleGraphics
