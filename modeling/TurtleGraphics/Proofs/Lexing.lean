import TurtleGraphics.Proofs.Context

/-!
# Tokens One at a Time

The tokens of a text in context can be handed out one by one, without ever holding a
list of them. Whoever does so has to look ahead: whether a `<` is the first half of a
comparison shows only when the token after it has been read. And a token that has been
read can be late: where a multiplication sign was left out, the sign is handed out
first. `Lexer` is a reader with a place for each of these two tokens, and with the last
token that it has handed out.

Here this reader is compared with `tokenize`, and both with the three rules taken by
themselves, one pass over all tokens for each. Nothing is in the way of the passes but
that the rules feed each other: the token after a comparison is judged by the
comparison, and a token that waits in one of the two places is judged when its turn
comes. So the comparison is made for every state of the reader. `Lexer.unread` are the
tokens, as they are written, that are still to come, and `Lexer.outlook` is what will be
made of them.

## Main definitions

* `firstToken`: The first token of a text, as it is written.
* `Lexer`: A reader with one token of lookahead and one that waits.
* `Lexer.next`, `Lexer.drain`: The next token, and all of them.
* `Lexer.unread`, `Lexer.outlook`: What is still to come, as written and in context.
* `joinComparisons`, `markSigns`, `insertTimes`: The three rules, one by one.
* `Rewritten`: Each token has become one token, in its place.

## Theorems

* `scan_eq_firstToken`: The tokens of a text are its first token and those of the rest.
* `Lexer.took_raw`, `Lexer.looked_joined`: What taking a token and looking ahead can do.
* `Lexer.inContextAfter_of_looked`: Looking ahead does not change what is to come.
* `Lexer.outlook_of_next`: A reader hands out the first token of its outlook.
* `Lexer.drain_eq_outlook`: It hands out its whole outlook.
* `Token.insertTimes_markSignsAfter`: One walk does what the three passes do.
* `Token.rewritten_inContextAfter`: No token is lost, doubled or moved.
* `drain_eq_passes`: A reader hands out what the three passes make of the tokens.
-/

namespace TurtleGraphics

/-- The first token of a text as it is written, the problems met before it, and the text
    after it. -/
structure FirstToken where
  token : Option Token
  faults : List Fault
  rest : List Char

/-- A problem met before all others. -/
def FirstToken.withFault (r : FirstToken) (f : Fault) : FirstToken :=
  { r with faults := f :: r.faults }

/-- Reads the first token of a text, if there is one. -/
def firstToken : List Char → FirstToken
  | [] => ⟨none, [], []⟩
  | c :: rest =>
    if isBlank c then firstToken rest
    else if isNumberChar c then
      let run := c :: rest.takeWhile isNumberChar
      ⟨some (.number (numberValue run)), [], rest.dropWhile isNumberChar⟩
    else
      match Operator.ofSymbol? c with
      | some op => ⟨some (.operator op), [], rest⟩
      | none =>
        if c = '(' then ⟨some .opening, [], rest⟩
        else if c = ')' then ⟨some .closing, [], rest⟩
        else if c = '$' then
          let name := rest.takeWhile isNameChar
          if name.isEmpty then (firstToken rest).withFault .emptyIdentifier
          else
            ⟨some (.variable (String.ofList (name.map Char.toUpper))), [],
              rest.dropWhile isNameChar⟩
        else (firstToken rest).withFault (.unknownToken c)

/-- The tokens of a text are its first token and the tokens of what comes after it. -/
theorem scan_eq_firstToken (text : List Char) :
    scan text =
      ⟨(firstToken text).token.toList ++ (scan (firstToken text).rest).tokens,
        (firstToken text).faults ++ (scan (firstToken text).rest).faults⟩ := by
  have hnil : scan [] = ⟨[], []⟩ := by rw [scan]
  fun_induction firstToken text with
  | case1 => rw [hnil]; rfl
  | case2 c rest hblank ih =>
      rw [scan, if_pos hblank]
      exact ih
  | case3 c rest hblank hnumber run =>
      rw [scan, if_neg hblank, if_pos hnumber]
      rfl
  | case4 c rest hblank hnumber op hop =>
      rw [scan, if_neg hblank, if_neg hnumber, hop]
      rfl
  | case5 rest hblank hnumber hop =>
      rw [scan, if_neg hblank, if_neg hnumber, hop]
      rfl
  | case6 rest hblank hnumber hop hne =>
      rw [scan, if_neg hblank, if_neg hnumber, hop]
      rfl
  | case7 rest name hempty hblank hnumber hop hopen hclose ih =>
      -- An empty name ends where it begins.
      have hrest : rest.dropWhile isNameChar = rest := by
        have hsplit := List.takeWhile_append_dropWhile (p := isNameChar) (l := rest)
        have hname : rest.takeWhile isNameChar = [] := List.isEmpty_iff.mp hempty
        rwa [hname, List.nil_append] at hsplit
      rw [scan, if_neg hblank, if_neg hnumber, hop]
      simp only [if_neg hopen, if_neg hclose, if_true, hrest]
      rw [if_pos hempty]
      exact congrArg (Scanned.withFault · .emptyIdentifier) ih
  | case8 rest name hempty hblank hnumber hop hopen hclose =>
      rw [scan, if_neg hblank, if_neg hnumber, hop]
      simp only [if_neg hopen, if_neg hclose, if_true]
      rw [if_neg hempty]
      rfl
  | case9 c rest hblank hnumber hop hopen hclose hdollar ih =>
      rw [scan, if_neg hblank, if_neg hnumber, hop]
      simp only [if_neg hopen, if_neg hclose, if_neg hdollar]
      exact congrArg (Scanned.withFault · (.unknownToken c)) ih

theorem firstToken_rest (text : List Char) :
    ((firstToken text).token = none → (firstToken text).rest = []) ∧
      ((firstToken text).token ≠ none → (firstToken text).rest.length < text.length) := by
  fun_induction firstToken text with
  | case1 => exact ⟨fun _ => rfl, fun h => absurd rfl h⟩
  | case2 c rest hblank ih => exact ⟨ih.1, fun h => Nat.lt_succ_of_lt (ih.2 h)⟩
  | case3 c rest hblank hnumber run =>
      have hle := (List.dropWhile_suffix (l := rest) isNumberChar).length_le
      exact ⟨nofun, fun _ => Nat.lt_succ_of_le hle⟩
  | case4 | case5 | case6 => exact ⟨nofun, fun _ => Nat.lt_succ_self _⟩
  | case7 rest name hempty hblank hnumber hop hopen hclose ih =>
      exact ⟨ih.1, fun h => Nat.lt_succ_of_lt (ih.2 h)⟩
  | case8 rest name hempty hblank hnumber hop hopen hclose =>
      have hle := (List.dropWhile_suffix (l := rest) isNameChar).length_le
      exact ⟨nofun, fun _ => Nat.lt_succ_of_le hle⟩
  | case9 c rest hblank hnumber hop hopen hclose hdollar ih =>
      exact ⟨ih.1, fun h => Nat.lt_succ_of_lt (ih.2 h)⟩

theorem Token.comparison?_of_beforeEquals {op : Operator} (h : op.beforeEquals? = none)
    (u : Token) : comparison? (.operator op) u = none := by
  unfold comparison?
  split
  next heq =>
    cases heq
    rw [h]
    rfl
  next => rfl

/-- A comparison is no sign and starts no operand, so it stays as it is wherever it
    stands. -/
theorem Token.written_comparison {t u comparison : Token}
    (h : comparison? t u = some comparison) (last : Option Token) :
    comparison.placed last = comparison ∧ comparison.written last = [comparison] := by
  unfold comparison? at h
  split at h
  next op =>
    rcases Option.map_eq_some_iff.mp h with ⟨binary, hbinary, rfl⟩
    have hsign : asSign (.operator (.binary binary)) = .operator (.binary binary) := by
      unfold Operator.beforeEquals? at hbinary
      split at hbinary <;> cases hbinary <;> rfl
    refine ⟨?_, written_of_not_startsOperand rfl last⟩
    simp only [placed, Function.comp_apply, hsign, ite_self]
  next => cases h

/-- A reader on its way through a text. -/
structure Lexer where
  /-- The text that has not been looked at. -/
  rest : List Char
  /-- The problems met so far. -/
  faults : List Fault := []
  /-- A token that was read to see whether it is a `=`, and is none. -/
  lookahead : Option Token := none
  /-- A token that waits behind a multiplication sign. -/
  pending : Option Token := none
  /-- The last token that was handed out. -/
  last : Option Token := none

namespace Lexer

/-- The next token as it is written. -/
def raw (l : Lexer) : Option Token × Lexer :=
  match l.lookahead with
  | some t => (some t, { l with lookahead := none })
  | none =>
    let r := firstToken l.rest
    (r.token, { l with rest := r.rest, faults := l.faults ++ r.faults })

/-- A token together with the `=` after it, if the two form a comparison. Any other token
    that was read on the way is kept. -/
def joined (l : Lexer) (t : Token) : Token × Lexer :=
  match t with
  | .operator op =>
    match op.beforeEquals? with
    | some comparison =>
      match l.raw with
      | (some (.operator (.binary .equal)), l) => (.operator (.binary comparison), l)
      | (other, l) => (t, { l with lookahead := other })
    | none => (t, l)
  | _ => (t, l)

/-- The next token in context. -/
def next (l : Lexer) : Option Token × Lexer :=
  match l.pending with
  | some t => (some t, { l with pending := none, last := some t })
  | none =>
    match l.raw with
    | (none, l) => (none, l)
    | (some t, l) =>
      let (t, l) := l.joined t
      let t := t.placed l.last
      if Token.multiplies l.last t then
        let times := Token.operator (.binary .multiply)
        (some times, { l with pending := some t, last := some times })
      else (some t, { l with last := some t })

/-- How much is left to be handed out, as a number that goes down. -/
def load (l : Lexer) : Nat :=
  2 * (l.rest.length + l.lookahead.toList.length) + l.pending.toList.length

/-- The tokens, as they are written, that are still to come. -/
def unread (l : Lexer) : List Token := l.lookahead.toList ++ (scan l.rest).tokens

/-- All problems, those that are still to come among them. -/
def allFaults (l : Lexer) : List Fault := l.faults ++ (scan l.rest).faults

/-- What happens to a reader when it takes a token from the text or from its lookahead. -/
structure Took (l l' : Lexer) (t : Option Token) : Prop where
  unread : l.unread = t.toList ++ l'.unread
  faults : l'.allFaults = l.allFaults
  pending : l'.pending = l.pending
  last : l'.last = l.last
  lookahead : l'.lookahead = none
  none : t = none → l'.rest = []
  load : t ≠ Option.none → l'.load + 2 ≤ l.load

theorem took_raw (l : Lexer) : l.Took l.raw.2 l.raw.1 := by
  unfold raw
  cases hahead : l.lookahead with
  | some t =>
      refine ⟨?_, rfl, rfl, rfl, rfl, nofun, fun _ => ?_⟩
      · simp [unread, hahead]
      · simp [load, hahead]
        omega
  | none =>
      have hscan := scan_eq_firstToken l.rest
      rcases firstToken_rest l.rest with ⟨hnone, hsome⟩
      refine ⟨?_, ?_, rfl, rfl, rfl, hnone, fun h => ?_⟩
      · simp only [unread, hahead, hscan]
        rfl
      · simp only [allFaults, List.append_assoc]
        rw [hscan]
      · have hlt := hsome h
        simp only [load, hahead]
        omega

/-- What looking for a `=` after the token `t` can come to. Either the two form a
    comparison, or the token stays as it is and so does all that comes after it. -/
structure Looked (l l' : Lexer) (t t' : Token) : Prop where
  tokens : (∃ u, Token.comparison? t u = some t' ∧ l.unread = u :: l'.unread) ∨
    (t' = t ∧ l'.unread = l.unread ∧ ∀ u ∈ l.unread.head?, Token.comparison? t u = none)
  faults : l'.allFaults = l.allFaults
  pending : l'.pending = l.pending
  last : l'.last = l.last
  load : l'.load ≤ l.load

theorem looked_self (l : Lexer) {t : Token} (h : ∀ u, Token.comparison? t u = none) :
    l.Looked l t t :=
  ⟨.inr ⟨rfl, rfl, fun u _ => h u⟩, rfl, rfl, rfl, Nat.le_refl _⟩

/-- A token that was taken and is put back changes nothing. -/
theorem Took.looked {l l' : Lexer} {other : Option Token} (h : l.Took l' other) {t : Token}
    (hother : other ≠ some (.operator (.binary .equal))) :
    l.Looked { l' with lookahead := other } t t := by
  have hunread : l.unread = other.toList ++ (scan l'.rest).tokens := by
    simpa [Lexer.unread, h.lookahead] using h.unread
  refine ⟨.inr ⟨rfl, hunread.symm, fun u hu => ?_⟩, h.faults, h.pending, h.last, ?_⟩
  · cases other with
    | none =>
        -- There is no token after `t` at all.
        rw [hunread, h.none rfl, scan] at hu
        cases hu
    | some u' =>
        rw [hunread] at hu
        cases hu
        exact Token.comparison?_of_ne (fun heq => hother (congrArg some heq)) t
  · cases other with
    | none =>
        simp [Lexer.load, h.none rfl, h.pending]
    | some u =>
        have hload := h.load (Option.some_ne_none u)
        simp [Lexer.load, h.lookahead] at hload ⊢
        omega

theorem looked_joined (l : Lexer) (t : Token) :
    l.Looked (l.joined t).2 t (l.joined t).1 := by
  have htook := l.took_raw
  unfold joined
  cases t with
  | number | «variable» | opening | closing => exact l.looked_self fun _ => rfl
  | operator op =>
      cases hop : op.beforeEquals? with
      | none =>
          simp only [hop]
          exact l.looked_self (Token.comparison?_of_beforeEquals hop)
      | some comparison =>
          simp only [hop]
          split
          next l' hraw =>
            rw [hraw] at htook
            refine ⟨.inl ⟨_, ?_, htook.unread⟩, htook.faults, htook.pending, htook.last, ?_⟩
            · simp only [Token.comparison?, hop, Option.map_some, Function.comp_apply]
            · exact Nat.le_of_add_right_le (htook.load (Option.some_ne_none _))
          next other l' hne hraw =>
            rw [hraw] at htook
            exact htook.looked hne

/-- What a reader will hand out: the token that waits, and then what the tokens still to
    come make of themselves after it. -/
def outlook (l : Lexer) : Scanned :=
  ⟨l.pending.toList ++ Token.inContextAfter (l.pending.or l.last) l.unread, l.allFaults⟩

/-- Taking a token and looking for a `=` after it does not change what is to come. A
    comparison is no sign and starts no operand, so it goes through the other two rules
    as it is. -/
theorem inContextAfter_of_looked {l l' : Lexer} {t t' : Token} (h : l.Looked l' t t')
    (last : Option Token) :
    Token.inContextAfter last (t :: l.unread)
      = (t'.placed last).written last ++
          Token.inContextAfter (some (t'.placed last)) l'.unread := by
  rcases h.tokens with ⟨u, hcomparison, hunread⟩ | ⟨rfl, hunread, hnone⟩
  · rcases Token.written_comparison hcomparison last with ⟨hplaced, hwritten⟩
    rw [hunread, Token.inContextAfter, hcomparison, hplaced, hwritten]
    rfl
  · rw [hunread]
    exact Token.inContextAfter_cons hnone last

/-- A token that has been taken and looked behind is the first of the outlook, with the
    multiplication sign that was left out before it. -/
theorem outlook_of_looked {l l₁ l₂ : Lexer} {t v : Token} (hpending : l.pending = none)
    (htook : l.Took l₁ (some t)) (hlooked : l₁.Looked l₂ t v) :
    l.outlook = ⟨(v.placed l₂.last).written l₂.last ++
      Token.inContextAfter (some (v.placed l₂.last)) l₂.unread, l₂.allFaults⟩ := by
  have hlast : l₂.last = l.last := hlooked.last.trans htook.last
  have hfaults : l₂.allFaults = l.allFaults := hlooked.faults.trans htook.faults
  rw [← inContextAfter_of_looked hlooked, hlast, hfaults]
  simp only [outlook, hpending, htook.unread]
  rfl

/-- A reader hands out the first token of its outlook and has the others before it. -/
theorem outlook_of_next {l l' : Lexer} {t : Token} (h : l.next = (some t, l')) :
    l.outlook = l'.outlook.withToken t ∧ l'.load < l.load := by
  unfold next at h
  cases hpending : l.pending with
  | some u =>
      simp only [hpending] at h
      cases h
      refine ⟨?_, ?_⟩
      · simp only [outlook, hpending]
        rfl
      · simp [load, hpending]
  | none =>
      have htook := l.took_raw
      rcases hraw : l.raw with ⟨_ | u, l₁⟩
      · simp only [hpending, hraw, Prod.mk.injEq, reduceCtorEq, false_and] at h
      have hlooked := l₁.looked_joined u
      rcases hjoined : l₁.joined u with ⟨v, l₂⟩
      simp only [hpending, hraw, hjoined] at h htook hlooked
      have hload := htook.load (Option.some_ne_none u)
      have hload' := hlooked.load
      have hnone : l₂.pending = none := (hlooked.pending.trans htook.pending).trans hpending
      rw [outlook_of_looked hpending htook hlooked]
      by_cases htimes : Token.multiplies l₂.last (v.placed l₂.last) = true
      · -- The multiplication sign comes first, and the token waits behind it.
        rw [if_pos htimes] at h
        cases h
        refine ⟨by simp only [Token.written, if_pos htimes]; rfl, ?_⟩
        have hwaits : ∀ w last, { l₂ with pending := some w, last := last }.load
            = l₂.load + 1 := by simp [load, hnone]
        rw [hwaits]
        omega
      · rw [if_neg htimes] at h
        cases h
        refine ⟨by simp only [Token.written, if_neg htimes, outlook, hnone]; rfl, ?_⟩
        change l₂.load < l.load
        omega

/-- A reader that hands out nothing has nothing left. -/
theorem outlook_of_done {l l' : Lexer} (h : l.next = (none, l')) :
    l.outlook = ⟨[], l'.faults⟩ := by
  unfold next at h
  cases hpending : l.pending with
  | some u =>
      simp only [hpending] at h
      cases h
  | none =>
      simp only [hpending] at h
      have htook := l.took_raw
      rcases hraw : l.raw with ⟨_ | u, l₁⟩
      · rw [hraw] at h htook
        cases h
        have hscan : scan l'.rest = ⟨[], []⟩ := by rw [htook.none rfl, scan]
        have hunread : l.unread = [] := by
          rw [htook.unread, unread, htook.lookahead, hscan]
          rfl
        have hfaults : l.allFaults = l'.faults := by
          rw [← htook.faults, allFaults, hscan, List.append_nil]
        simp only [outlook, hpending, hunread, hfaults]
        rfl
      · rw [hraw] at h
        simp only at h
        split at h <;> cases h

/-- All tokens that are still to be handed out, and all problems met until there is none
    left. -/
def drain (l : Lexer) : Scanned :=
  match h : l.next with
  | (some t, l') =>
    have : l'.load < l.load := (outlook_of_next h).2
    l'.drain.withToken t
  | (none, l') => ⟨[], l'.faults⟩
termination_by l.load

theorem drain_eq_outlook (l : Lexer) : l.drain = l.outlook := by
  fun_induction drain l with
  | case1 l t l' h hlt ih => rw [ih, (outlook_of_next h).1]
  | case2 l l' h => rw [outlook_of_done h]

end Lexer

/-- The first rule by itself: from left to right, an operator `!`, `<` or `>` directly
    before `=` forms one comparison with it. -/
def joinComparisons : List Token → List Token
  | .operator op :: .operator (.binary .equal) :: rest =>
    match op.beforeEquals? with
    | some comparison => .operator (.binary comparison) :: joinComparisons rest
    | none => .operator op :: joinComparisons (.operator (.binary .equal) :: rest)
  | t :: rest => t :: joinComparisons rest
  | [] => []

/-- Whether a `+` or `-` is a sign after this token, or at the start. -/
def signFollows : Option Token → Bool
  | none | some .opening | some (.operator _) => true
  | _ => false

/-- The second rule by itself, after the token `previous`. -/
def markSignsAfter (previous : Option Token) : List Token → List Token
  | [] => []
  | t :: rest =>
    (if signFollows previous then t.asSign else t) :: markSignsAfter (some t) rest

/-- The second rule by itself: a `+` or `-` at the start, after an opening bracket or
    after an operator is a sign. -/
def markSigns (tokens : List Token) : List Token := markSignsAfter none tokens

/-- The third rule by itself: a multiplication sign goes between a number, variable or
    closing bracket and a number, variable or opening bracket, unless both are numbers. -/
def insertTimes : List Token → List Token
  | t :: u :: rest =>
    if t.endsOperand && u.startsOperand && !(t.isNumber && u.isNumber) then
      t :: .operator (.binary .multiply) :: insertTimes (u :: rest)
    else t :: insertTimes (u :: rest)
  | [t] => [t]
  | [] => []

/-- Each of some tokens, as they are written, has become one token, or two of them one
    comparison; all of them are in their places, and what is new are multiplication
    signs. -/
inductive Rewritten : List Token → List Token → Prop where
  | nil : Rewritten [] []
  | kept (t : Token) {raw tokens : List Token} (h : Rewritten raw tokens) :
      Rewritten (t :: raw) (t :: tokens)
  | comparison {op : Operator} {comparison : Binary} (hop : op.beforeEquals? = some comparison)
      {raw tokens : List Token} (h : Rewritten raw tokens) :
      Rewritten (.operator op :: .operator (.binary .equal) :: raw)
        (.operator (.binary comparison) :: tokens)
  | plus {raw tokens : List Token} (h : Rewritten raw tokens) :
      Rewritten (.operator (.binary .add) :: raw) (.operator (.unary .plus) :: tokens)
  | minus {raw tokens : List Token} (h : Rewritten raw tokens) :
      Rewritten (.operator (.binary .subtract) :: raw) (.operator (.unary .minus) :: tokens)
  | times {raw tokens : List Token} (h : Rewritten raw tokens) :
      Rewritten raw (.operator (.binary .multiply) :: tokens)

namespace Token

theorem joinComparisons_of_comparison {t u comparison : Token}
    (h : comparison? t u = some comparison) (rest : List Token) :
    joinComparisons (t :: u :: rest) = comparison :: joinComparisons rest := by
  unfold comparison? at h
  split at h
  next op =>
    rcases Option.map_eq_some_iff.mp h with ⟨binary, hbinary, rfl⟩
    simp only [joinComparisons, hbinary, Function.comp_apply]
  next => cases h

theorem joinComparisons_cons {t : Token} {rest : List Token}
    (h : ∀ u ∈ rest.head?, comparison? t u = none) :
    joinComparisons (t :: rest) = t :: joinComparisons rest := by
  rw [joinComparisons.eq_def]
  split
  next op rest' heq =>
    cases heq
    have hop : op.beforeEquals? = none := Option.map_eq_none_iff.mp (h _ rfl)
    rw [hop]
  next heq =>
    cases heq
    rfl
  next heq => cases heq

theorem signFollows_eq (last : Option Token) : signFollows last = !operandBefore last := by
  rcases last with _ | ⟨_ | _ | _ | _ | _⟩ <;> rfl

/-- A sign is an operator like the `+` or `-` it was, so it makes no difference to the
    token after it. -/
theorem signFollows_placed (last : Option Token) (t : Token) :
    signFollows (some t) = signFollows (some (placed last t)) := by
  unfold placed asSign
  split
  · rfl
  · split <;> rfl

theorem marked_eq_placed {previous last : Option Token}
    (h : signFollows previous = signFollows last) (t : Token) :
    (if signFollows previous then t.asSign else t) = placed last t := by
  rw [h, signFollows_eq, placed]
  cases operandBefore last <;> rfl

/-- A multiplication sign goes between two tokens exactly where the walk puts one. -/
theorem insertTimes_cons (last : Option Token) {t : Token} {rest tokens : List Token}
    (h : insertTimes (t :: rest) = t :: tokens) :
    insertTimes (last.toList ++ t :: rest) = last.toList ++ (written last t ++ tokens) := by
  cases last with
  | none => exact h
  | some l =>
      change (if multiplies (some l) t = true then l :: .operator (.binary .multiply) ::
        insertTimes (t :: rest) else l :: insertTimes (t :: rest)) = _
      by_cases htimes : multiplies (some l) t = true
      · rw [written, if_pos htimes, if_pos htimes, h]
        rfl
      · rw [written, if_neg htimes, if_neg htimes, h]
        rfl

/-- One walk does what the three passes do. The signs are judged by the token before them
    as it was written, and the multiplication signs by that token as it was handed out,
    so the two can differ on the way. -/
theorem insertTimes_markSignsAfter (last previous : Option Token)
    (h : signFollows previous = signFollows last) (raw : List Token) :
    insertTimes (last.toList ++ markSignsAfter previous (joinComparisons raw))
      = last.toList ++ inContextAfter last raw := by
  fun_induction inContextAfter last raw generalizing previous with
  | case1 last =>
      cases last <;> rfl
  | case2 last t =>
      simp only [joinComparisons, markSignsAfter, marked_eq_placed h]
      have hsingle : insertTimes [placed last t] = [placed last t] := rfl
      rw [insertTimes_cons last hsingle, List.append_nil]
  | case3 last t u rest comparison hcomparison ih =>
      rcases written_comparison hcomparison last with ⟨hplaced, hwritten⟩
      have hrest := insertTimes_cons last (ih (some comparison) rfl)
      rw [hwritten] at hrest
      rw [joinComparisons_of_comparison hcomparison, markSignsAfter, marked_eq_placed h, hplaced]
      exact hrest
  | case4 last t u rest hcomparison ih =>
      have hjoin : joinComparisons (t :: u :: rest) = t :: joinComparisons (u :: rest) :=
        joinComparisons_cons fun v hv => by
          cases hv
          exact hcomparison
      rw [hjoin, markSignsAfter, marked_eq_placed h]
      exact insertTimes_cons last (ih (some t) (signFollows_placed last t))

theorem rewritten_written (last : Option Token) {t t' : Token} {raw tokens : List Token}
    (h : Rewritten (t :: raw) (t' :: tokens)) :
    Rewritten (t :: raw) (written last t' ++ tokens) := by
  unfold written
  split
  · exact .times h
  · exact h

theorem rewritten_placed (last : Option Token) (t : Token) {raw tokens : List Token}
    (h : Rewritten raw tokens) : Rewritten (t :: raw) (placed last t :: tokens) := by
  unfold placed asSign
  split
  · exact .kept t h
  · split
    · exact .plus h
    · exact .minus h
    · exact .kept t h

/-- No token is lost, doubled or moved. -/
theorem rewritten_inContextAfter (last : Option Token) (raw : List Token) :
    Rewritten raw (inContextAfter last raw) := by
  fun_induction inContextAfter last raw with
  | case1 last => exact .nil
  | case2 last t =>
      have hwritten := rewritten_written last (rewritten_placed last t .nil)
      rwa [List.append_nil] at hwritten
  | case3 last t u rest comparison hcomparison ih =>
      unfold comparison? at hcomparison
      split at hcomparison
      next op =>
        rcases Option.map_eq_some_iff.mp hcomparison with ⟨binary, hbinary, rfl⟩
        exact .comparison hbinary ih
      next => cases hcomparison
  | case4 last t u rest hcomparison ih => exact rewritten_written last (rewritten_placed last t ih)

end Token

-- The `!` goes with the `=` and not with the `<`, and what the comparison leaves is a sign.
example : insertTimes (markSigns (joinComparisons
    [.operator (.binary .less), .operator (.unary .not), .operator (.binary .equal),
      .operator (.binary .subtract), .variable "A", .opening])) =
    [.operator (.binary .less), .operator (.binary .unequal), .operator (.unary .minus),
      .variable "A", .operator (.binary .multiply), .opening] := by decide

end TurtleGraphics
