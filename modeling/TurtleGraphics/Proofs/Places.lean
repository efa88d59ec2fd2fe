import TurtleGraphics.Proofs.Outline

/-!
# Where the Parts of a Program Stand

Reading a program goes forward only, and it keeps a count of the characters it has
passed over. The places it hands out, of parameters, of lists, of bodies and of whole
statements, are differences of such counts. Here they are tied to the text.

`Cursor.Proceeds` is the relation behind all of it: from one cursor to another some
characters were passed over, and the count went up by as many. Each reader of a part
is such a step, and what it reads stands between its two cursors. The relation is
transitive, so a statement stands where its parts stand, and every statement of a
text stands inside of the text.

A comment is the one thing that breaks the count, and only at the end of a text: it
passes over an end of line that may not be there. Nothing is left to be read then, and
a comment has no parts, so no place is ever taken from that count.

## Main definitions

* `Span.Inside`: A span with at least one character between two places.
* `Cursor.Proceeds`: Characters were passed over and counted.
* `Block.Occupies`: A body stands in a text where it says.
* `Params.Placed`, `Block.Placed`, `Statement.Placed`: The parts of a statement stand
  in a text.

## Theorems

* `Cursor.proceeds_readParams`, `Cursor.proceeds_readBody`: Readers go forward.
* `Cursor.placed_readParams`, `Cursor.placed_readBody`: What they read stands between.
* `Statement.read_by_parts`: A statement is read part by part.
* `Statement.placed_read`: It stands in the text it was read from.
* `Item.exists_read_of_mem_statements`: Where the statements of a text are read.
* `Item.placed_of_mem_statements`: They all stand in the text.
-/

namespace TurtleGraphics

/-- A span that holds at least one character and lies between two places. -/
structure Span.Inside (lo hi : Nat) (span : Span) : Prop where
  lower : lo ≤ span.start
  nonempty : span.start < span.stop
  upper : span.stop ≤ hi

theorem Span.Inside.mono {lo hi lo' hi' : Nat} {span : Span} (h : span.Inside lo hi)
    (hlo : lo' ≤ lo) (hhi : hi ≤ hi') : span.Inside lo' hi' :=
  ⟨Nat.le_trans hlo h.lower, h.nonempty, Nat.le_trans h.upper hhi⟩

namespace Cursor

/-- From `c` to `d` characters were passed over, and each of them was counted. -/
def Proceeds (c d : Cursor) : Prop :=
  ∃ passed, c.rest = passed ++ d.rest ∧ d.pos = c.pos + passed.length

/-- Where the text behind a cursor ends. -/
def stop (c : Cursor) : Nat := c.pos + c.rest.length

theorem Proceeds.refl (c : Cursor) : c.Proceeds c := ⟨[], rfl, rfl⟩

theorem Proceeds.trans {c d e : Cursor} (h : c.Proceeds d) (h' : d.Proceeds e) : c.Proceeds e := by
  rcases h with ⟨first, hrest, hpos⟩
  rcases h' with ⟨second, hrest', hpos'⟩
  refine ⟨first ++ second, ?_, ?_⟩
  · rw [hrest, hrest', List.append_assoc]
  · rw [hpos', hpos, List.length_append, Nat.add_assoc]

theorem Proceeds.pos_le {c d : Cursor} (h : c.Proceeds d) : c.pos ≤ d.pos := by
  rcases h with ⟨passed, -, hpos⟩
  omega

/-- However far reading has gone, the text ends where it did. -/
theorem Proceeds.stop_eq {c d : Cursor} (h : c.Proceeds d) : d.stop = c.stop := by
  rcases h with ⟨passed, hrest, hpos⟩
  simp only [stop, hrest, hpos, List.length_append]
  omega

theorem Proceeds.pos_le_stop {c d : Cursor} (h : c.Proceeds d) : d.pos ≤ c.stop := by
  rw [← h.stop_eq]
  exact Nat.le_add_right _ _

theorem proceeds_skip (p : Char → Bool) (c : Cursor) : c.Proceeds (c.skip p) :=
  ⟨c.run p, (c.run_append_skip_rest p).symm, rfl⟩

theorem proceeds_cons {c : Cursor} {ch : Char} {rest : List Char} (h : c.rest = ch :: rest) :
    c.Proceeds ⟨c.pos + 1, rest⟩ :=
  ⟨[ch], h, rfl⟩

theorem proceeds_advance {c : Cursor} {ch : Char} {rest : List Char} (h : c.rest = ch :: rest) :
    c.Proceeds (c.advance 1) := by
  rw [advance, h]
  exact proceeds_cons h

/-- Reading up to a closing bracket passes over the text between and the bracket. -/
theorem proceeds_enclosed (d : Delimiter) (stops : Char → Bool) (pos : Nat) (text : List Char) :
    let e := Enclosed.read d stops text
    Proceeds ⟨pos, text⟩ ⟨pos + e.length, e.rest⟩ := by
  intro e
  have hread : e.inside ++ e.tail d = text := Enclosed.readFrom_append d stops 0 [] text
  refine ⟨e.inside ++ if e.closed then [d.closing] else [], ?_, ?_⟩
  · rw [List.append_assoc]
    exact hread.symm
  · simp only [Enclosed.length, List.length_append]
    cases e.closed <;> rfl

theorem proceeds_readName (c : Cursor) : c.Proceeds c.readName.2 :=
  (proceeds_skip isSpacing c).trans (proceeds_skip isNameChar _)

theorem proceeds_readParams (c : Cursor) : c.Proceeds c.readParams.2 := by
  have hspacing := proceeds_skip isSpacing c
  unfold readParams
  simp only
  split
  next rest heq =>
    exact (hspacing.trans (proceeds_cons heq)).trans (proceeds_enclosed .round endsList _ rest)
  next rest heq => exact hspacing.trans (proceeds_advance heq)
  next rest heq => exact hspacing.trans (proceeds_advance heq)
  next => exact hspacing

theorem proceeds_readBody (c : Cursor) : c.Proceeds c.readBody.2 := by
  have hblanks := proceeds_skip isBlank c
  unfold readBody
  simp only
  split
  next rest heq =>
    exact (hblanks.trans (proceeds_cons heq)).trans
      (proceeds_enclosed .curly (fun _ => false) _ rest)
  next rest heq => exact hblanks.trans (proceeds_advance heq)
  next => exact hblanks

/-- At the end of a text the count goes on by one although no end of line is there. -/
theorem proceeds_skipLine (c : Cursor) : c.Proceeds c.skipLine ∨ c.skipLine.rest = [] := by
  have hline := proceeds_skip (· != '\n') c
  rcases hrest : (c.skip (· != '\n')).rest with _ | ⟨ch, rest⟩
  · refine .inr ?_
    simp only [skipLine, advance, hrest, List.drop_nil]
  · exact .inl (hline.trans (proceeds_advance hrest))

end Cursor

/-- The text of a body stands in a text that starts at a place, where the body says that
    it stands. -/
def Block.Occupies (start : Nat) (text : List Char) (b : Block) : Prop :=
  ∃ before behind, text = before ++ b.text ++ behind ∧ b.start = start + before.length

namespace Block.Occupies

variable {b : Block} {start : Nat} {text : List Char}

theorem start_le (h : b.Occupies start text) : start ≤ b.start := by
  rcases h with ⟨before, behind, -, hstart⟩
  omega

theorem stop_le (h : b.Occupies start text) : b.stop ≤ start + text.length := by
  rcases h with ⟨before, behind, htext, hstart⟩
  simp only [stop, htext, hstart, List.length_append]
  omega

/-- What stands in the rest of a text stands in the text. -/
theorem of_proceeds {c d : Cursor} (hproceeds : c.Proceeds d) (h : b.Occupies d.pos d.rest) :
    b.Occupies c.pos c.rest := by
  rcases hproceeds with ⟨passed, hrest, hpos⟩
  rcases h with ⟨before, behind, htext, hstart⟩
  refine ⟨passed ++ before, behind, ?_, ?_⟩
  · rw [hrest, htext]
    simp only [List.append_assoc]
  · rw [hstart, hpos, List.length_append, Nat.add_assoc]

/-- What stands in a body stands in the text around the body. -/
theorem trans {outer : Block} (houter : outer.Occupies start text)
    (h : b.Occupies outer.start outer.text) : b.Occupies start text := by
  rcases houter with ⟨before, behind, htext, hstart⟩
  rcases h with ⟨before', behind', htext', hstart'⟩
  refine ⟨before ++ before', behind' ++ behind, ?_, ?_⟩
  · rw [htext, htext']
    simp only [List.append_assoc]
  · rw [hstart', hstart, List.length_append, Nat.add_assoc]

/-- The text of a body, cut out of the text around it. -/
theorem text_eq (h : b.Occupies 0 text) : b.text = (text.drop b.start).take b.text.length := by
  rcases h with ⟨before, behind, htext, hstart⟩
  rw [Nat.zero_add] at hstart
  rw [htext, hstart, List.append_assoc, List.drop_left, List.take_left]

end Block.Occupies

/-- The places of parameters, and of a list that is not closed, lie between two
    places. -/
structure Params.Placed (lo hi : Nat) (ps : Params) : Prop where
  items : ∀ p ∈ ps.items, p.span.Inside lo hi
  ending : ∀ list, ps.ending = .unclosed list → list.Inside lo hi

theorem Params.placed_default (lo hi : Nat) : Params.Placed lo hi {} := ⟨nofun, nofun⟩

/-- The text of a body stands in the text behind a cursor, with its opening brace
    before it and its closing brace, if there is one, behind it. -/
structure Block.Placed (c : Cursor) (b : Block) : Prop where
  opened : 0 < b.start
  span : b.span.Inside c.pos c.stop
  occupies : b.Occupies c.pos c.rest

namespace Block.Placed

variable {b : Block} {c : Cursor}

theorem of_proceeds {d : Cursor} (hproceeds : c.Proceeds d) (h : b.Placed d) : b.Placed c :=
  ⟨h.opened, h.span.mono hproceeds.pos_le (Nat.le_of_eq hproceeds.stop_eq),
    h.occupies.of_proceeds hproceeds⟩

/-- The opening brace and the text are part of the body with its braces. -/
theorem openSpan (h : b.Placed c) : b.openSpan.Inside c.pos c.stop := by
  have hopened := h.opened
  refine ⟨h.span.lower, ?_, Nat.le_trans ?_ h.span.upper⟩
  · simp only [Block.openSpan, Block.stop]
    omega
  · simp only [Block.openSpan, Block.span]
    omega

/-- A body is shorter than the text it stands in, for its opening brace is missing. -/
theorem length_lt (h : b.Placed c) : b.text.length < c.rest.length := by
  have hopened := h.opened
  have hlower : c.pos ≤ b.start - 1 := h.span.lower
  have hstop : b.start + b.text.length ≤ c.pos + c.rest.length := h.occupies.stop_le
  omega

end Block.Placed

/-- A body, if it is a block, stands in the text behind a cursor. -/
def Body.Placed (c : Cursor) (body : Body) : Prop := ∀ b, body = .block b → b.Placed c

/-- Pieces of a text stand one behind the other in it. -/
theorem place_of_mem_pieces {depth start : Nat} {taken text : List Char}
    {piece : Nat × List Char} (h : piece ∈ pieces depth start taken text) :
    start ≤ piece.1 ∧ piece.1 + piece.2.length ≤ start + taken.length + text.length := by
  induction text generalizing depth start taken with
  | nil =>
      rw [pieces, List.mem_singleton] at h
      rw [h]
      simp only [List.length_reverse, List.length_nil]
      omega
  | cons c rest ih =>
      unfold pieces at h
      by_cases hcut : c = ',' ∧ depth = 0
      · rw [if_pos hcut, List.mem_cons] at h
        rcases h with h | h
        · rw [h]
          simp only [List.length_reverse]
          omega
        · have hrest := ih h
          simp only [List.length_cons, List.length_nil] at hrest ⊢
          omega
      · rw [if_neg hcut] at h
        have hrest := ih h
        simp only [List.length_cons] at hrest ⊢
        omega

/-- A piece that is not blank has a character. -/
theorem length_pos_of_ofPiece? {piece : Nat × List Char} {p : Param}
    (h : Param.ofPiece? piece = some p) :
    0 < piece.2.length ∧ p.span = ⟨piece.1, piece.1 + piece.2.length⟩ := by
  rcases piece with ⟨start, _ | ⟨c, rest⟩⟩
  · cases h
  · unfold Param.ofPiece? at h
    simp only at h
    split at h
    · cases h
    · cases h
      exact ⟨Nat.succ_pos _, rfl⟩

theorem Param.inside_of_mem_ofList {start : Nat} {text : List Char} {p : Param}
    (h : p ∈ Param.ofList start text) : p.span.Inside start (start + text.length) := by
  rcases List.mem_filterMap.mp h with ⟨piece, hpiece, hp⟩
  have hplace := place_of_mem_pieces hpiece
  rcases length_pos_of_ofPiece? hp with ⟨hpos, hspan⟩
  rw [hspan]
  simp only [List.length_nil] at hplace
  exact ⟨hplace.1, Nat.lt_add_of_pos_right hpos, hplace.2⟩

namespace Cursor

/-- Parameters stand between the cursors before and after them. -/
theorem placed_readParams (c : Cursor) : c.readParams.1.Placed c.pos c.readParams.2.pos := by
  have hle : c.pos ≤ (c.skip isSpacing).pos := (proceeds_skip isSpacing c).pos_le
  unfold readParams
  simp only
  split
  next rest heq =>
    -- The list starts behind its bracket, and the count takes in all of its text.
    refine ⟨fun p hp => ?_, fun list hlist => ?_⟩
    · refine (Param.inside_of_mem_ofList hp).mono (by omega) ?_
      simp only [Enclosed.length]
      omega
    · split at hlist
      · cases hlist
      · cases hlist
        refine ⟨Nat.le_refl _, ?_, ?_⟩
        · simp only
          omega
        · simp only [Enclosed.length]
          omega
  next => exact ⟨nofun, nofun⟩
  next => exact Params.placed_default _ _
  next => exact Params.placed_default _ _

/-- A body stands in the text behind the cursor before it. -/
theorem placed_readBody (c : Cursor) : c.readBody.1.Placed c := by
  have hblanks := proceeds_skip isBlank c
  intro b hb
  unfold readBody at hb
  simp only at hb
  split at hb
  next rest heq =>
    have hopen := hblanks.trans (proceeds_cons heq)
    -- The reader goes on behind the opening brace and stops behind the closing one.
    have hread := proceeds_enclosed .curly (fun _ => false) ((c.skip isBlank).pos + 1) rest
    have hend := (hopen.trans hread).pos_le_stop
    have hparts := Enclosed.readFrom_append .curly (fun _ => false) 0 [] rest
    cases hb
    refine ⟨Nat.succ_pos _, ⟨?_, ?_, ?_⟩, .of_proceeds hopen ⟨[], _, hparts.symm, rfl⟩⟩
    · simpa [Block.span] using hblanks.pos_le
    · simp only [Block.span, Block.stop]
      omega
    · simpa [Block.span, Block.stop, Enclosed.length, Nat.add_assoc] using hend
  next => cases hb
  next => cases hb

end Cursor

/-- A statement and its parts stand in the text behind a cursor. For a comment the place
    of the whole may be wrong, but no bracket of it can be. -/
structure Statement.Placed (c : Cursor) (s : Statement) : Prop where
  span : (s.code = .comment ∧ s.params.ending = .proper) ∨ s.span.Inside c.pos c.stop
  params : s.params.Placed c.pos c.stop
  body : s.body.Placed c
  hasBody : ∀ b, s.body = .block b → s.code.hasBody = true

theorem Statement.Placed.of_proceeds {c d : Cursor} {s : Statement} (hproceeds : c.Proceeds d)
    (h : s.Placed d) : s.Placed c := by
  have hlo := hproceeds.pos_le
  have hhi := Nat.le_of_eq hproceeds.stop_eq
  refine ⟨h.span.imp_right fun hspan => hspan.mono hlo hhi, ⟨?_, ?_⟩,
    fun b hb => (h.body b hb).of_proceeds hproceeds, h.hasBody⟩
  · exact fun p hp => (h.params.items p hp).mono hlo hhi
  · exact fun list hlist => (h.params.ending list hlist).mono hlo hhi

/-- A statement is read part by part, each from where the one before it ended. -/
theorem Statement.read_by_parts (code : Code) (c : Cursor) :
    ∃ c₁ c₂ c₃ : Cursor, c.Proceeds c₁ ∧ c₁.Proceeds c₂ ∧ c₂.Proceeds c₃ ∧
      (Statement.read code c).1.params.Placed c₁.pos c₂.pos ∧
      (Statement.read code c).1.body.Placed c₂ ∧
      (Statement.read code c).2 = if code = .comment then c₃.skipLine else c₃ := by
  have hname : c.Proceeds (if code.hasName then c.readName else (none, c)).2 := by
    split
    · exact c.proceeds_readName
    · exact .refl c
  have hparams : ∀ c : Cursor,
      c.Proceeds (if code.hasParams then c.readParams else ({}, c)).2 ∧
        (if code.hasParams then c.readParams else ({}, c)).1.Placed c.pos
          (if code.hasParams then c.readParams else ({}, c)).2.pos := by
    intro c
    split
    · exact ⟨c.proceeds_readParams, c.placed_readParams⟩
    · exact ⟨.refl c, Params.placed_default _ _⟩
  have hbody : ∀ c : Cursor,
      c.Proceeds (if code.hasBody then c.readBody else (.absent, c)).2 ∧
        (if code.hasBody then c.readBody else (.absent, c)).1.Placed c := by
    intro c
    split
    · exact ⟨c.proceeds_readBody, c.placed_readBody⟩
    · exact ⟨.refl c, nofun⟩
  exact ⟨_, _, _, hname, (hparams _).1, (hbody _).1, (hparams _).2, (hbody _).2, rfl⟩

/-- A statement stands in the text that begins with its code. -/
theorem Statement.placed_read (code : Code) (pos : Nat) (ch : Char) (rest : List Char) :
    (Statement.read code ⟨pos + 1, rest⟩).1.Placed ⟨pos, ch :: rest⟩ := by
  have hcode : Cursor.Proceeds ⟨pos, ch :: rest⟩ ⟨pos + 1, rest⟩ := Cursor.proceeds_cons rfl
  rcases Statement.read_by_parts code ⟨pos + 1, rest⟩ with
    ⟨c₁, c₂, c₃, hname, hlist, htext, hparams, hbody, hend⟩
  have hbefore := hcode.trans hname
  have hbehind := hbefore.trans hlist
  refine ⟨?_, ⟨fun p hp => ?_, fun list heq => ?_⟩,
    fun b hb => (hbody b hb).of_proceeds hbehind, fun b hb => ?_⟩
  · by_cases hcomment : code = .comment
    · subst hcomment
      exact .inl ⟨rfl, rfl⟩
    · -- All parts are passed over, so the statement ends where its last part does.
      have hall := hname.trans (hlist.trans htext)
      have hspan : (Statement.read code ⟨pos + 1, rest⟩).1.span = ⟨pos, c₃.pos⟩ := by
        rw [if_neg hcomment] at hend
        rw [← hend]
        rfl
      rw [hspan]
      exact .inr ⟨Nat.le_refl _, hall.pos_le, (hcode.trans hall).pos_le_stop⟩
  · exact (hparams.items p hp).mono hbefore.pos_le hbehind.pos_le_stop
  · exact (hparams.ending list heq).mono hbefore.pos_le hbehind.pos_le_stop
  · cases hhas : code.hasBody with
    | true => exact hhas
    | false =>
        simp only [Statement.read, hhas] at hb
        cases hb

/-- Reading a statement goes forward, or nothing is left to be read. -/
theorem Statement.proceeds_read (code : Code) (c : Cursor) :
    c.Proceeds (Statement.read code c).2 ∨ (Statement.read code c).2.rest = [] := by
  rcases Statement.read_by_parts code c with ⟨c₁, c₂, c₃, hname, hlist, htext, -, -, hend⟩
  have hall := hname.trans (hlist.trans htext)
  rw [hend]
  split
  · exact c₃.proceeds_skipLine.imp_left hall.trans
  · exact .inl hall

/-- An item stands in the text behind a cursor. -/
def Item.Placed (c : Cursor) : Item → Prop
  | .statement s => s.Placed c
  | .unknown _ pos => c.pos ≤ pos ∧ pos < c.stop

theorem Item.Placed.of_proceeds {c d : Cursor} {item : Item} (hproceeds : c.Proceeds d)
    (h : item.Placed d) : item.Placed c := by
  cases item with
  | statement s => exact Statement.Placed.of_proceeds hproceeds h
  | unknown ch pos =>
      exact ⟨Nat.le_trans hproceeds.pos_le h.1, Nat.lt_of_lt_of_eq h.2 hproceeds.stop_eq⟩

theorem Item.placed_read {pos : Nat} {ch : Char} {rest : List Char} {item : Item}
    (h : item ∈ (Item.read ch ⟨pos + 1, rest⟩).1) : item.Placed ⟨pos, ch :: rest⟩ := by
  unfold Item.read at h
  cases hcode : Code.ofChar? ch with
  | some code =>
      simp only [hcode, Option.mem_some_iff] at h
      subst h
      exact Statement.placed_read code pos ch rest
  | none =>
      simp only [hcode] at h
      split at h
      · cases h
      · cases h
        simp only [Item.Placed, Cursor.stop, List.length_cons]
        omega

theorem Item.proceeds_read (ch : Char) (c : Cursor) :
    c.Proceeds (Item.read ch c).2 ∨ (Item.read ch c).2.rest = [] := by
  unfold Item.read
  split
  · exact Statement.proceeds_read _ c
  · exact .inl (.refl c)

/-- Every item of a text is read from a place further on in the text. -/
theorem Item.exists_read_of_mem_statements {start : Nat} {text : List Char} {item : Item}
    (h : item ∈ statements start text) :
    ∃ pos ch rest, Cursor.Proceeds ⟨start, text⟩ ⟨pos, ch :: rest⟩ ∧
      item ∈ (Item.read ch ⟨pos + 1, rest⟩).1 := by
  induction hlength : text.length using Nat.strongRecOn generalizing start text with
  | _ n ih =>
    rcases text with _ | ⟨ch, rest⟩
    · rw [statements_nil] at h
      cases h
    · rw [statements_cons, List.mem_append] at h
      rcases h with h | h
      · exact ⟨start, ch, rest, .refl _, Option.mem_toList.mp h⟩
      · have hlt : (Item.read ch ⟨start + 1, rest⟩).2.rest.length < n := by
          have hle := Item.read_rest_length_le ch ⟨start + 1, rest⟩
          simp only [List.length_cons] at hlength hle
          omega
        have hcode : Cursor.Proceeds ⟨start, ch :: rest⟩ ⟨start + 1, rest⟩ :=
          Cursor.proceeds_cons rfl
        -- The other items stand behind this one. If the count is broken there are none.
        rcases Item.proceeds_read ch ⟨start + 1, rest⟩ with hproceeds | hnothing
        · rcases ih _ hlt h rfl with ⟨pos', ch', rest', hfurther, hread⟩
          exact ⟨pos', ch', rest', (hcode.trans hproceeds).trans hfurther, hread⟩
        · rw [hnothing, statements_nil] at h
          cases h

/-- Every statement of a text is read from a place further on in the text. -/
theorem Statement.exists_read_of_mem_statements {start : Nat} {text : List Char} {s : Statement}
    (h : .statement s ∈ statements start text) :
    ∃ code c, Cursor.Proceeds ⟨start, text⟩ c ∧ (Statement.read code c).1 = s := by
  rcases Item.exists_read_of_mem_statements h with ⟨pos, ch, rest, hproceeds, hread⟩
  unfold Item.read at hread
  cases hcode : Code.ofChar? ch with
  | none =>
      rw [hcode] at hread
      simp only at hread
      split at hread <;> cases hread
  | some code =>
      simp only [hcode, Option.mem_some_iff, Item.statement.injEq] at hread
      exact ⟨code, _, hproceeds.trans (Cursor.proceeds_cons rfl), hread⟩

/-- Every item of a text stands in the text. -/
theorem Item.placed_of_mem_statements {start : Nat} {text : List Char} {item : Item}
    (h : item ∈ statements start text) : item.Placed ⟨start, text⟩ := by
  rcases Item.exists_read_of_mem_statements h with ⟨pos, ch, rest, hproceeds, hread⟩
  exact .of_proceeds hproceeds (Item.placed_read hread)

end TurtleGraphics
