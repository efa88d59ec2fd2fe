import TurtleGraphics.Program.Statement

/-!
# Statements Without Their Places

Reading a program keeps track of places in the text, and nothing it decides depends
on them. Here statements are compared with their places taken off: `outline` is what
a text is cut into, wherever it stands.

One induction along the text gives two facts. It compares reading a text with reading
the same text, at another place, with `more` behind it. If `more` is empty this says
that places do not matter. If `more` begins with a new line it says what becomes of
text that is put on the lines below: each reader stops at the end of its line, except
that the reader of bodies passes over blanks, ends of lines among them, and that a
comment takes the end of its line with it. So what is left of `more` when a reader has
come to the end of the first text is `more` itself, or `more` without some of the
blanks it begins with (`Resumes`).

A body that is still open at the end of the first text goes on into `more`, and a
brace at the beginning of `more` is a body for what stands above it. These are the two
things that must not be.

## Main definitions

* `Item.unplaced`: An item with its places taken off.
* `outline`: The items of a text without their places.
* `Ends`: Text that is empty or begins on a new line.
* `Resumes`: What a reader leaves, with and without more text behind.
* `Item.Closed`: An item whose body, if it has one, is closed.

## Theorems

* `Enclosed.readFrom_append_of_ends`: A list that is not closed ends with its line.
* `Enclosed.readFrom_append_of_closed`: A bracket that is closed stays closed.
* `Item.read_append`: An item is read alike with more text behind it.
* `unplaced_statements_append`: So are all statements of a text.
* `unplaced_statements`: Places do not matter.
* `outline_append`: The outline of a text with more lines below it.
-/

namespace TurtleGraphics

def Param.unplaced (p : Param) : Param := ⟨p.text, ⟨0, 0⟩⟩

def ListEnd.unplaced : ListEnd → ListEnd
  | .unclosed _ => .unclosed ⟨0, 0⟩
  | ending => ending

def Params.unplaced (ps : Params) : Params := ⟨ps.items.map Param.unplaced, ps.ending.unplaced⟩

def Block.unplaced (b : Block) : Block := ⟨0, b.text, b.closed⟩

def Body.unplaced : Body → Body
  | .block b => .block b.unplaced
  | body => body

def Statement.unplaced (s : Statement) : Statement :=
  ⟨s.code, s.name, s.params.unplaced, s.body.unplaced, ⟨0, 0⟩⟩

/-- An item with its places taken off. -/
def Item.unplaced : Item → Item
  | .statement s => .statement s.unplaced
  | .unknown c _ => .unknown c 0

/-- The items of a text, without their places. -/
def outline (text : List Char) : List Item := (statements 0 text).map Item.unplaced

/-- Text that is empty or begins on a new line. -/
def Ends (more : List Char) : Prop := ∀ c ∈ more.head?, c = '\n'

/-- No brace comes first, blanks apart. -/
def Braceless (more : List Char) : Prop :=
  ∀ c ∈ (more.dropWhile isBlank).head?, c ≠ '\x7b' ∧ c ≠ '\x7d'

/-- What a reader leaves of a text with `more` behind it, against what it leaves of the
    text alone: the same and then `more`, or at the end of the text `more` without some
    blanks. -/
def Resumes (more rest rest' : List Char) : Prop :=
  rest' = rest ++ more ∨
    rest = [] ∧ ∃ blanks : List Char, (∀ c ∈ blanks, isBlank c = true) ∧ more = blanks ++ rest'

/-- A body that is closed, if there is one. -/
def Body.Closed : Body → Prop
  | .block b => b.closed = true
  | _ => True

theorem Body.closed_unplaced (body : Body) : body.unplaced.Closed ↔ body.Closed := by
  cases body <;> exact Iff.rfl

def Item.Closed : Item → Prop
  | .statement s => s.body.Closed
  | .unknown _ _ => True

namespace Ends

variable {more : List Char}

theorem nil : Ends [] := nofun

theorem dropWhile_eq (h : Ends more) {p : Char → Bool} (hp : p '\n' = false) :
    more.dropWhile p = more := by
  cases more with
  | nil => rfl
  | cons c rest =>
      have hc : c = '\n' := h c rfl
      rw [List.dropWhile_cons_of_neg]
      rw [hc, hp]
      exact Bool.false_ne_true

theorem takeWhile_eq (h : Ends more) {p : Char → Bool} (hp : p '\n' = false) :
    more.takeWhile p = [] := by
  cases more with
  | nil => rfl
  | cons c rest =>
      have hc : c = '\n' := h c rfl
      rw [List.takeWhile_cons_of_neg]
      rw [hc, hp]
      exact Bool.false_ne_true

/-- Characters that go on within a line end with it. -/
theorem takeWhile_append (h : Ends more) {p : Char → Bool} (hp : p '\n' = false)
    (text : List Char) : (text ++ more).takeWhile p = text.takeWhile p := by
  rw [List.takeWhile_append, h.takeWhile_eq hp, List.append_nil]
  split
  next hlength =>
    exact ((List.takeWhile_prefix p).eq_of_length hlength).symm
  next => rfl

theorem dropWhile_append (h : Ends more) {p : Char → Bool} (hp : p '\n' = false)
    (text : List Char) : (text ++ more).dropWhile p = text.dropWhile p ++ more := by
  rw [List.dropWhile_append, h.dropWhile_eq hp]
  split
  next hempty =>
    rw [List.isEmpty_iff.mp hempty, List.nil_append]
  next => rfl

end Ends

namespace Enclosed

variable {d : Delimiter} {stops : Char → Bool}

/-- Text that a new line ends is read as if there were nothing behind it. -/
theorem readFrom_append_of_ends {more : List Char} (h : Ends more) (hstops : stops '\n' = true)
    (depth : Nat) (taken text : List Char) :
    readFrom d stops depth taken (text ++ more) =
      ⟨(readFrom d stops depth taken text).inside, (readFrom d stops depth taken text).closed,
        (readFrom d stops depth taken text).rest ++ more⟩ := by
  induction text generalizing depth taken with
  | nil =>
      -- The new line stops the reader just where the text alone would have ended.
      cases more with
      | nil => rfl
      | cons c rest =>
          have hc : stops c = true := by
            rw [h c rfl]
            exact hstops
          simp only [List.nil_append, readFrom, hc, if_true]
  | cons c rest ih =>
      rw [List.cons_append]
      unfold readFrom
      by_cases hc : stops c = true
      · simp only [hc, if_true]
        rfl
      · simp only [hc]
        by_cases hclosing : c = d.closing
        · simp only [if_pos hclosing]
          cases depth with
          | zero => rfl
          | succ depth => exact ih depth (c :: taken)
        · simp only [if_neg hclosing]
          exact ih _ (c :: taken)

/-- A bracket that is closed in a text is closed there whatever follows. -/
theorem readFrom_append_of_closed (more : List Char) {depth : Nat} {taken text : List Char}
    (h : (readFrom d stops depth taken text).closed = true) :
    readFrom d stops depth taken (text ++ more) =
      ⟨(readFrom d stops depth taken text).inside, true,
        (readFrom d stops depth taken text).rest ++ more⟩ := by
  induction text generalizing depth taken with
  | nil => cases h
  | cons c rest ih =>
      -- Both readers see the same character. The one way to end here is at a closing
      -- bracket, since the text without `more` is closed.
      rw [List.cons_append]
      unfold readFrom at h ⊢
      by_cases hc : stops c = true
      · simp only [hc, if_true] at h
        cases h
      · simp only [hc] at h ⊢
        by_cases hclosing : c = d.closing
        · simp only [if_pos hclosing] at h ⊢
          cases depth with
          | zero => rfl
          | succ depth => exact ih h
        · simp only [if_neg hclosing] at h ⊢
          exact ih h

end Enclosed

/-- Where a parameter list stands does not matter for the texts in it. -/
theorem map_snd_pieces (depth start start' : Nat) (taken text : List Char) :
    (pieces depth start taken text).map Prod.snd =
      (pieces depth start' taken text).map Prod.snd := by
  induction text generalizing depth start start' taken with
  | nil => rfl
  | cons c rest ih =>
      unfold pieces
      by_cases hc : c = ',' ∧ depth = 0
      · simp only [if_pos hc, List.map_cons]
        rw [ih]
      · simp only [if_neg hc]
        exact ih _ _ _ _

/-- The parameter of a piece, its place apart. -/
theorem unplaced_ofPiece? (piece : Nat × List Char) :
    (Param.ofPiece? piece).map Param.unplaced =
      (Param.ofPiece? (0, piece.2)).map Param.unplaced := by
  unfold Param.ofPiece?
  simp only
  split <;> rfl

theorem map_unplaced_filterMap_ofPiece? (pieces : List (Nat × List Char)) :
    (pieces.filterMap Param.ofPiece?).map Param.unplaced =
      (pieces.map Prod.snd).filterMap fun text =>
        (Param.ofPiece? (0, text)).map Param.unplaced := by
  rw [List.map_filterMap, List.filterMap_map]
  exact congrArg (List.filterMap · pieces) (funext unplaced_ofPiece?)

theorem unplaced_ofList (start start' : Nat) (text : List Char) :
    (Param.ofList start text).map Param.unplaced =
      (Param.ofList start' text).map Param.unplaced := by
  rw [Param.ofList, Param.ofList, map_unplaced_filterMap_ofPiece?,
    map_unplaced_filterMap_ofPiece?, map_snd_pieces 0 start start']

namespace Cursor

variable {more : List Char} {c d : Cursor}

theorem readName_append (hends : Ends more) (h : d.rest = c.rest ++ more) :
    d.readName.1 = c.readName.1 ∧ d.readName.2.rest = c.readName.2.rest ++ more := by
  have hspacing : (d.skip isSpacing).rest = (c.skip isSpacing).rest ++ more := by
    simp only [skip, h, hends.dropWhile_append (p := isSpacing) rfl]
  have hname : (d.skip isSpacing).run isNameChar = (c.skip isSpacing).run isNameChar := by
    rw [run, hspacing, hends.takeWhile_append rfl]
    rfl
  refine ⟨?_, ?_⟩
  · simp only [readName, hname]
  · simp only [readName]
    rw [skip, hspacing, hends.dropWhile_append rfl]
    rfl

-- What the readers of parameter lists and bodies do depends on the first character
-- that they do not pass over. One lemma for each, and places are gone from here on.

theorem readParams_of_opening {rest : List Char} (h : c.rest.dropWhile isSpacing = '(' :: rest) :
    c.readParams.1.unplaced =
        ⟨(Param.ofList 0 (Enclosed.read .round endsList rest).inside).map Param.unplaced,
          if (Enclosed.read .round endsList rest).closed then .proper else .unclosed ⟨0, 0⟩⟩ ∧
      c.readParams.2.rest = (Enclosed.read .round endsList rest).rest := by
  simp only [readParams, skip, h]
  refine ⟨?_, trivial⟩
  rw [Params.unplaced]
  congr 1
  · exact unplaced_ofList _ _ _
  · cases (Enclosed.read .round endsList rest).closed <;> rfl

theorem readParams_of_closing {rest : List Char} (h : c.rest.dropWhile isSpacing = ')' :: rest) :
    c.readParams.1 = ⟨[], .unopened⟩ ∧ c.readParams.2.rest = rest := by
  simp only [readParams, skip, h]
  exact ⟨trivial, rfl⟩

theorem readParams_of_comma {rest : List Char} (h : c.rest.dropWhile isSpacing = ',' :: rest) :
    c.readParams.1 = {} ∧ c.readParams.2.rest = rest := by
  simp only [readParams, skip, h]
  exact ⟨trivial, rfl⟩

theorem readParams_of_other
    (h : ∀ ch ∈ (c.rest.dropWhile isSpacing).head?, ch ≠ '(' ∧ ch ≠ ')' ∧ ch ≠ ',') :
    c.readParams.1 = {} ∧ c.readParams.2.rest = c.rest.dropWhile isSpacing := by
  simp only [readParams, skip]
  split
  next heq => exact absurd rfl (h '(' (by rw [heq]; rfl)).1
  next heq => exact absurd rfl (h ')' (by rw [heq]; rfl)).2.1
  next heq => exact absurd rfl (h ',' (by rw [heq]; rfl)).2.2
  next => exact ⟨rfl, rfl⟩

theorem readBody_of_opening {rest : List Char} (h : c.rest.dropWhile isBlank = '\x7b' :: rest) :
    c.readBody.1.unplaced =
        .block ⟨0, (Enclosed.read .curly (fun _ => false) rest).inside,
          (Enclosed.read .curly (fun _ => false) rest).closed⟩ ∧
      c.readBody.2.rest = (Enclosed.read .curly (fun _ => false) rest).rest := by
  simp only [readBody, skip, h]
  exact ⟨rfl, trivial⟩

theorem readBody_of_closing {rest : List Char} (h : c.rest.dropWhile isBlank = '\x7d' :: rest) :
    c.readBody.1 = .unopened ∧ c.readBody.2.rest = rest := by
  simp only [readBody, skip, h]
  exact ⟨trivial, rfl⟩

theorem readBody_of_other
    (h : ∀ ch ∈ (c.rest.dropWhile isBlank).head?, ch ≠ '\x7b' ∧ ch ≠ '\x7d') :
    c.readBody.1 = .absent ∧ c.readBody.2.rest = c.rest.dropWhile isBlank := by
  simp only [readBody, skip]
  split
  next heq => exact absurd rfl (h '\x7b' (by rw [heq]; rfl)).1
  next heq => exact absurd rfl (h '\x7d' (by rw [heq]; rfl)).2
  next => exact ⟨rfl, rfl⟩

/-- A parameter list ends with its line, whether it is closed or not. -/
theorem readParams_append (hends : Ends more) (h : d.rest = c.rest ++ more) :
    d.readParams.1.unplaced = c.readParams.1.unplaced ∧
      d.readParams.2.rest = c.readParams.2.rest ++ more := by
  have hspacing : d.rest.dropWhile isSpacing = c.rest.dropWhile isSpacing ++ more := by
    rw [h, hends.dropWhile_append rfl]
  by_cases hother : ∀ ch ∈ (c.rest.dropWhile isSpacing).head?, ch ≠ '(' ∧ ch ≠ ')' ∧ ch ≠ ','
  · -- At the end of the text a new line comes next, and no list begins with it.
    have hother' : ∀ ch ∈ (d.rest.dropWhile isSpacing).head?, ch ≠ '(' ∧ ch ≠ ')' ∧ ch ≠ ',' := by
      intro ch hch
      rw [hspacing, List.head?_append] at hch
      cases hhead : (c.rest.dropWhile isSpacing).head? with
      | none =>
          rw [hhead] at hch
          have hnewline := hends ch hch
          rw [hnewline]
          decide
      | some first =>
          rw [hhead] at hch hother
          exact hother ch hch
    have hc := readParams_of_other hother
    have hd := readParams_of_other hother'
    rw [hc.1, hd.1, hc.2, hd.2, hspacing]
    exact ⟨rfl, rfl⟩
  · -- Otherwise the text has a character left, and the list begins with it.
    rcases htext : c.rest.dropWhile isSpacing with _ | ⟨ch, rest⟩
    · rw [htext] at hother
      exact absurd nofun hother
    rw [htext, List.cons_append] at hspacing
    by_cases hopening : ch = '('
    · subst hopening
      have hc := readParams_of_opening htext
      have hd := readParams_of_opening hspacing
      have hread : Enclosed.read .round endsList (rest ++ more) = _ :=
        Enclosed.readFrom_append_of_ends hends rfl 0 [] rest
      rw [hc.1, hd.1, hc.2, hd.2, hread]
      exact ⟨rfl, rfl⟩
    · by_cases hclosing : ch = ')'
      · subst hclosing
        have hc := readParams_of_closing htext
        have hd := readParams_of_closing hspacing
        rw [hc.1, hd.1, hc.2, hd.2]
        exact ⟨rfl, rfl⟩
      · by_cases hcomma : ch = ','
        · subst hcomma
          have hc := readParams_of_comma htext
          have hd := readParams_of_comma hspacing
          rw [hc.1, hd.1, hc.2, hd.2]
          exact ⟨rfl, rfl⟩
        · rw [htext] at hother
          refine absurd ?_ hother
          intro first hfirst
          cases hfirst
          exact ⟨hopening, hclosing, hcomma⟩

/-- A body that is closed is read alike with more text behind it. Without a body the
    blanks that follow are passed over, also those of `more`. -/
theorem readBody_append (hbrace : Braceless more) (h : d.rest = c.rest ++ more)
    (hclosed : more = [] ∨ c.readBody.1.Closed) :
    d.readBody.1.unplaced = c.readBody.1.unplaced ∧
      Resumes more c.readBody.2.rest d.readBody.2.rest := by
  rcases htext : c.rest.dropWhile isBlank with _ | ⟨ch, rest⟩
  · -- Nothing but blanks up to the end of the text.
    have hblank : d.rest.dropWhile isBlank = more.dropWhile isBlank := by
      rw [h, List.dropWhile_append, htext]
      rfl
    have hc := readBody_of_other (c := c) (by rw [htext]; exact nofun)
    have hd := readBody_of_other (c := d) (by rw [hblank]; exact hbrace)
    rw [hc.1, hd.1, hc.2, hd.2, htext, hblank]
    refine ⟨rfl, .inr ⟨rfl, more.takeWhile isBlank, ?_, ?_⟩⟩
    · exact List.all_eq_true.mp List.all_takeWhile
    · exact List.takeWhile_append_dropWhile.symm
  · have hblank : d.rest.dropWhile isBlank = ch :: (rest ++ more) := by
      rw [h, List.dropWhile_append, htext]
      rfl
    by_cases hopening : ch = '\x7b'
    · subst hopening
      have hc := readBody_of_opening htext
      have hd := readBody_of_opening hblank
      -- A body that is closed ends before `more`; one that is not needs `more` empty.
      rcases hclosed with rfl | hclosed
      · rw [hc.1, hd.1, hc.2, hd.2, List.append_nil]
        exact ⟨rfl, .inl (List.append_nil _).symm⟩
      · have hclosed' : (Enclosed.read .curly (fun _ => false) rest).closed = true := by
          have hbody := c.readBody.1.closed_unplaced.mpr hclosed
          rw [hc.1] at hbody
          exact hbody
        have hread : Enclosed.read .curly (fun _ => false) (rest ++ more) = _ :=
          Enclosed.readFrom_append_of_closed more hclosed'
        rw [hc.1, hd.1, hc.2, hd.2, hread, hclosed']
        exact ⟨rfl, .inl rfl⟩
    · by_cases hclosing : ch = '\x7d'
      · subst hclosing
        have hc := readBody_of_closing htext
        have hd := readBody_of_closing hblank
        rw [hc.1, hd.1, hc.2, hd.2]
        exact ⟨rfl, .inl rfl⟩
      · have hother (text : List Char) :
            ∀ first ∈ (ch :: text).head?, first ≠ '\x7b' ∧ first ≠ '\x7d' := by
          intro first hfirst
          cases hfirst
          exact ⟨hopening, hclosing⟩
        have hc := readBody_of_other (c := c) (by rw [htext]; exact hother _)
        have hd := readBody_of_other (c := d) (by rw [hblank]; exact hother _)
        rw [hc.1, hd.1, hc.2, hd.2, htext, hblank]
        exact ⟨rfl, .inl rfl⟩

/-- A comment takes the end of its line with it. -/
theorem skipLine_append (hends : Ends more) (h : d.rest = c.rest ++ more) :
    Resumes more c.skipLine.rest d.skipLine.rest := by
  have hline : (d.skip (· != '\n')).rest = (c.skip (· != '\n')).rest ++ more := by
    rw [skip, h, hends.dropWhile_append rfl]
    rfl
  have hc : c.skipLine.rest = (c.skip (· != '\n')).rest.drop 1 := rfl
  have hd : d.skipLine.rest = (d.skip (· != '\n')).rest.drop 1 := rfl
  rw [hc, hd, hline]
  -- If the comment goes to the end of the text, its new line is the one in `more`.
  rcases (c.skip (· != '\n')).rest with _ | ⟨ch, rest⟩
  · refine .inr ⟨rfl, more.take 1, ?_, ?_⟩
    · intro ch hch
      rcases more with _ | ⟨first, below⟩
      · cases hch
      · have hfirst := hends first rfl
        rcases List.mem_singleton.mp hch with rfl
        rw [hfirst]
        decide
    · exact (List.take_append_drop 1 more).symm
  · exact .inl rfl

end Cursor

section

variable {more : List Char} {c d : Cursor}

/-- A statement is read alike with more text behind it: its parts are read one after
    another, and only the last one can pass over blanks of `more`. -/
theorem Statement.read_append (hends : Ends more) (hbrace : Braceless more) (code : Code)
    (h : d.rest = c.rest ++ more)
    (hclosed : more = [] ∨ (Statement.read code c).1.body.Closed) :
    (Statement.read code d).1.unplaced = (Statement.read code c).1.unplaced ∧
      Resumes more (Statement.read code c).2.rest (Statement.read code d).2.rest := by
  by_cases hcomment : code = .comment
  · subst hcomment
    exact ⟨rfl, Cursor.skipLine_append hends h⟩
  simp only [Statement.read, if_neg hcomment, Statement.unplaced] at hclosed ⊢
  -- Each part hands on a text with `more` behind it. After it has been compared, only
  -- its result matters, so it is made a variable.
  have hname :
      (if code.hasName then d.readName else (none, d)).1 =
          (if code.hasName then c.readName else (none, c)).1 ∧
        (if code.hasName then d.readName else (none, d)).2.rest =
          (if code.hasName then c.readName else (none, c)).2.rest ++ more := by
    split
    · exact Cursor.readName_append hends h
    · exact ⟨rfl, h⟩
  generalize (if code.hasName then d.readName else (none, d)) = nameD at hname ⊢
  generalize (if code.hasName then c.readName else (none, c)) = nameC at hname hclosed ⊢
  have hparams :
      (if code.hasParams then nameD.2.readParams else ({}, nameD.2)).1.unplaced =
          (if code.hasParams then nameC.2.readParams else ({}, nameC.2)).1.unplaced ∧
        (if code.hasParams then nameD.2.readParams else ({}, nameD.2)).2.rest =
          (if code.hasParams then nameC.2.readParams else ({}, nameC.2)).2.rest ++ more := by
    split
    · exact Cursor.readParams_append hends hname.2
    · exact ⟨rfl, hname.2⟩
  generalize (if code.hasParams then nameD.2.readParams else ({}, nameD.2)) = paramsD
    at hparams ⊢
  generalize (if code.hasParams then nameC.2.readParams else ({}, nameC.2)) = paramsC
    at hparams hclosed ⊢
  rw [hname.1, hparams.1]
  split
  next hbody =>
    simp only [hbody, if_true] at hclosed
    have hread := Cursor.readBody_append hbrace hparams.2 hclosed
    rw [hread.1]
    exact ⟨rfl, hread.2⟩
  next => exact ⟨rfl, .inl hparams.2⟩

theorem Item.read_append (hends : Ends more) (hbrace : Braceless more) (ch : Char)
    (h : d.rest = c.rest ++ more)
    (hclosed : more = [] ∨ ∀ item ∈ (Item.read ch c).1, item.Closed) :
    (Item.read ch d).1.map Item.unplaced = (Item.read ch c).1.map Item.unplaced ∧
      Resumes more (Item.read ch c).2.rest (Item.read ch d).2.rest := by
  unfold Item.read at hclosed ⊢
  cases hcode : Code.ofChar? ch with
  | some code =>
      simp only [hcode] at hclosed ⊢
      have hclosed' : more = [] ∨ (Statement.read code c).1.body.Closed :=
        hclosed.imp_right fun hitem => hitem _ rfl
      have hread := Statement.read_append hends hbrace code h hclosed'
      refine ⟨?_, hread.2⟩
      exact congrArg (some ∘ Item.statement) hread.1
  | none =>
      -- A blank or a character that begins no statement: nothing more is read.
      simp only
      refine ⟨?_, .inl h⟩
      split <;> rfl

end

/-- The statements before a place are kept as they were. -/
theorem statementsFrom_eq (done : List Item) (pos : Nat) (text : List Char) :
    statementsFrom done pos text = done.reverse ++ statements pos text := by
  unfold statements
  induction hlength : text.length using Nat.strongRecOn generalizing done pos text with
  | _ n ih =>
    rcases text with _ | ⟨ch, rest⟩
    · simp only [statementsFrom, List.reverse_nil, List.append_nil]
    · rw [statementsFrom, statementsFrom]
      have hlt : (Item.read ch ⟨pos + 1, rest⟩).2.rest.length < n := by
        have hle := Item.read_rest_length_le ch ⟨pos + 1, rest⟩
        simp only [List.length_cons] at hlength hle
        omega
      rw [ih _ hlt _ _ _ rfl, ih _ hlt ((Item.read ch ⟨pos + 1, rest⟩).1.toList ++ []) _ _ rfl]
      simp only [List.reverse_append, List.append_nil, List.append_assoc]

theorem statements_nil (pos : Nat) : statements pos [] = [] := by
  simp only [statements, statementsFrom, List.reverse_nil]

/-- The first statement of a text, and then the others. -/
theorem statements_cons (pos : Nat) (ch : Char) (rest : List Char) :
    statements pos (ch :: rest) =
      (Item.read ch ⟨pos + 1, rest⟩).1.toList ++
        statements (Item.read ch ⟨pos + 1, rest⟩).2.pos (Item.read ch ⟨pos + 1, rest⟩).2.rest := by
  rw [statements, statementsFrom, statementsFrom_eq, List.append_nil]
  congr 1
  cases (Item.read ch ⟨pos + 1, rest⟩).1 <;> rfl

theorem Code.ofChar?_of_isBlank {ch : Char} (h : isBlank ch = true) : Code.ofChar? ch = none := by
  unfold Code.ofChar?
  split
  all_goals first | rfl | exact absurd h (by decide)

/-- Blanks between statements are nothing. -/
theorem statements_blanks {blanks : List Char} (h : ∀ c ∈ blanks, isBlank c = true) (pos : Nat)
    (text : List Char) :
    statements pos (blanks ++ text) = statements (pos + blanks.length) text := by
  induction blanks generalizing pos with
  | nil => rfl
  | cons ch blanks ih =>
      have hch : isBlank ch = true := h ch List.mem_cons_self
      have hread (c : Cursor) : Item.read ch c = (none, c) := by
        rw [Item.read, Code.ofChar?_of_isBlank hch, hch]
        rfl
      rw [List.cons_append, statements_cons, hread]
      rw [ih fun c hc => h c (List.mem_cons_of_mem ch hc)]
      rw [List.length_cons, Nat.add_right_comm, Nat.add_assoc]
      rfl

/-- Text with `more` behind it, read at another place: the statements of the text, and
    then what there is in `more` (`target`), of which some blanks may be gone. -/
theorem unplaced_statements_append {more : List Char} (hends : Ends more)
    (hbrace : Braceless more) {target : List Item}
    (htarget : ∀ (pos : Nat) (blanks rest : List Char), (∀ c ∈ blanks, isBlank c = true) →
      more = blanks ++ rest → (statements pos rest).map Item.unplaced = target)
    (pos pos' : Nat) (text : List Char)
    (hclosed : more = [] ∨ ∀ item ∈ statements pos text, item.Closed) :
    (statements pos' (text ++ more)).map Item.unplaced =
      (statements pos text).map Item.unplaced ++ target := by
  induction hlength : text.length using Nat.strongRecOn generalizing pos pos' text with
  | _ n ih =>
    rcases text with _ | ⟨ch, rest⟩
    · rw [statements_nil, List.nil_append]
      exact htarget pos' [] more nofun rfl
    · -- One item is read on both sides. Its length is not known, so the induction is on
      -- the length of the text and not on the text.
      rw [statements_cons] at hclosed
      have hread := Item.read_append (c := ⟨pos + 1, rest⟩) (d := ⟨pos' + 1, rest ++ more⟩)
        hends hbrace ch rfl
        (hclosed.imp_right fun hitem item hmem =>
          hitem item (List.mem_append_left _ (Option.mem_toList.mpr hmem)))
      have hlt : (Item.read ch ⟨pos + 1, rest⟩).2.rest.length < n := by
        have hle := Item.read_rest_length_le ch ⟨pos + 1, rest⟩
        simp only [List.length_cons] at hlength hle
        omega
      rw [List.cons_append, statements_cons, statements_cons, List.map_append, List.map_append,
        ← Option.toList_map, ← Option.toList_map, hread.1, List.append_assoc]
      congr 1
      -- Either the text goes on, or it ended with this item and blanks of `more` with it.
      rcases hread.2 with hrest | ⟨hrest, blanks, hblanks, hmore⟩
      · rw [hrest]
        exact ih _ hlt _ _ _
          (hclosed.imp_right fun hitem item hmem => hitem item (List.mem_append_right _ hmem)) rfl
      · rw [hrest, statements_nil]
        exact htarget _ blanks _ hblanks hmore

/-- Places do not matter. -/
theorem unplaced_statements (pos : Nat) (text : List Char) :
    (statements pos text).map Item.unplaced = outline text := by
  have hnothing : ∀ (pos' : Nat) (blanks rest : List Char), (∀ c ∈ blanks, isBlank c = true) →
      [] = blanks ++ rest → (statements pos' rest).map Item.unplaced = [] := by
    intro pos' blanks rest _ hnil
    rw [(List.append_eq_nil_iff.mp hnil.symm).2, statements_nil]
    rfl
  have h := unplaced_statements_append Ends.nil nofun hnothing 0 pos text (.inl rfl)
  rw [List.append_nil, List.append_nil] at h
  exact h

theorem outline_nil : outline [] = [] := by
  rw [outline, statements_nil]
  rfl

theorem outline_cons (ch : Char) (rest : List Char) :
    outline (ch :: rest) =
      ((Item.read ch ⟨1, rest⟩).1.map Item.unplaced).toList ++
        outline (Item.read ch ⟨1, rest⟩).2.rest := by
  rw [outline, statements_cons, List.map_append, unplaced_statements, ← Option.toList_map]

theorem outline_blanks {blanks : List Char} (h : ∀ c ∈ blanks, isBlank c = true)
    (text : List Char) : outline (blanks ++ text) = outline text := by
  rw [outline, statements_blanks h, unplaced_statements]

theorem Item.closed_unplaced (item : Item) : item.unplaced.Closed ↔ item.Closed := by
  cases item with
  | statement s => exact s.body.closed_unplaced
  | unknown _ _ => exact Iff.rfl

/-- The outline of a text with more lines below it. -/
theorem outline_append {more text : List Char} (hends : Ends more) (hbrace : Braceless more)
    (hclosed : ∀ item ∈ outline text, item.Closed) :
    outline (text ++ more) = outline text ++ outline more := by
  refine unplaced_statements_append hends hbrace ?_ 0 0 text (.inr ?_)
  · intro pos blanks rest hblanks hmore
    rw [unplaced_statements, hmore, outline_blanks hblanks]
  · intro item hmem
    exact item.closed_unplaced.mp (hclosed _ (List.mem_map_of_mem hmem))

end TurtleGraphics
