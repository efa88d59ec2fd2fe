import TurtleGraphics.Proofs.Bottom
import TurtleGraphics.Proofs.Scanning

/-!
# A Closing Bracket Too Many

A closing bracket without a partner is reported and the text is read on. But by the time
it is found to be stray, it has sent all waiting operators to the output, and what comes
next follows on an operand that ends there. So `1+2)*3` is not read as `1+2 *3`. It is read
as `(1+2)*3`: a stray bracket does what the partner of a bracket at the very start of the
text would do (`Expression.parse_unopened`).

Whether it is as good as a blank is decided by the text behind it (`stray_ignored_iff`). If
the first token there lets all waiting operators act in any case, the bracket was not
needed for it. Only a second closing bracket and the loosest of all operators do so. For
the converse one text before the bracket is enough, `$X|$X`. Its operator waits for all
that is tighter, and where it is in the program tells whether it had to.

## Main definitions

* `Token.ReleasesAll`: The tokens that let all operators act.
* `Yard.ofText`: The yard at the end of a text.
* `Expression.ofProgram`: What becomes of a program.
* `WarnsMore`: One more warning of a stray bracket.
* `Expression.Ignored`: A closing bracket is as good as a blank.
* `Expression.loosest`: A text with the loosest operator.

## Theorems

* `Token.inContextAfter_of_releasesAll`: These tokens are read in the same way everywhere.
* `Token.exists_operator_inContextAfter`: After an operand all others bring an operator.
* `Yard.result_foldl_released`: Operators can as well have acted before.
* `Yard.ofText_closing`, `Yard.ofText_blank`: Texts in two parts.
* `Expression.parse_eq`: Expressions by the yard at the end of their text.
* `Expression.parse_unopened`: Stray brackets close the whole text before them.
* `Expression.ignored_of_releasesAll`, `Expression.not_ignored_loosest`: Whether stray
  brackets are ignored.
* `stray_ignored_iff`: When stray brackets are ignored.
-/

namespace TurtleGraphics

namespace Token

/-- After a variable tokens are read as after a closing bracket. -/
theorem inContextAfter_variable (name : String) (tokens : List Token) :
    inContextAfter (some (.variable name)) tokens = inContextAfter (some .closing) tokens := by
  have hplaced : ∀ t, placed (some (.variable name)) t = placed (some .closing) t := fun _ => rfl
  have hwritten : ∀ t, written (some (.variable name)) t = written (some .closing) t :=
    fun _ => rfl
  rcases tokens with _ | ⟨t, _ | ⟨u, rest⟩⟩
  · rfl
  · simp only [inContextAfter, hplaced, hwritten]
  · simp only [inContextAfter, hplaced, hwritten]

/-- The tokens that let every operator act that waits. -/
def ReleasesAll (t : Token) : Prop := t = .closing ∨ t = .operator (.binary .or)

/-- They are read in the same way everywhere. -/
theorem ReleasesAll.inContextAfter_cons {t : Token} (h : t.ReleasesAll) (last : Option Token)
    (rest : List Token) :
    inContextAfter last (t :: rest) = t :: inContextAfter (some t) rest := by
  have hread : (∀ u ∈ rest.head?, comparison? t u = none) ∧ placed last t = t ∧
      t.startsOperand = false := by
    rcases h with rfl | rfl
    · exact ⟨fun u _ => rfl, ite_self _, rfl⟩
    · exact ⟨fun u _ => comparison?_of_beforeEquals rfl u, ite_self _, rfl⟩
  rcases hread with ⟨hcomparison, hplaced, hstarts⟩
  rw [Token.inContextAfter_cons hcomparison, hplaced, written_of_not_startsOperand hstarts]
  rfl

theorem inContextAfter_of_releasesAll {tokens : List Token}
    (h : ∀ t ∈ tokens.head?, t.ReleasesAll) :
    (∀ last, inContextAfter last tokens = inContext tokens) ∧
      (inContext tokens).head? = tokens.head? := by
  cases tokens with
  | nil => exact ⟨fun _ => rfl, rfl⟩
  | cons t rest =>
      have ht := h t rfl
      rw [inContext, ht.inContextAfter_cons]
      exact ⟨fun last => ht.inContextAfter_cons last rest, rfl⟩

/-- Where an operand has ended, all other tokens become operators, if only by the
    multiplication sign before them, and the loosest operator is not among these. -/
theorem exists_operator_inContextAfter {t : Token} (h : ¬ t.ReleasesAll) (rest : List Token) :
    ∃ op tokens, inContextAfter (some .closing) (t :: rest) = .operator op :: tokens ∧
      op ≠ .binary .or := by
  -- The token may be the first half of a comparison.
  by_cases hcomparison : ∀ u ∈ rest.head?, comparison? t u = none
  · have hplaced : placed (some .closing) t = t := rfl
    rw [Token.inContextAfter_cons hcomparison, hplaced]
    cases t with
    | number | «variable» | opening => exact ⟨_, _, rfl, by decide⟩
    | operator op => exact ⟨op, _, rfl, fun hop => h (.inr (congrArg _ hop))⟩
    | closing => exact absurd (.inl rfl) h
  · rw [not_forall₂] at hcomparison
    rcases hcomparison with ⟨u, hu, hsome⟩
    rcases Option.ne_none_iff_exists'.mp hsome with ⟨comparison, hcomparison⟩
    rcases List.head?_eq_some_iff.mp hu with ⟨rest, rfl⟩
    simp only [inContextAfter, hcomparison]
    unfold comparison? at hcomparison
    split at hcomparison
    next op =>
      rcases Option.map_eq_some_iff.mp hcomparison with ⟨binary, hbinary, rfl⟩
      refine ⟨.binary binary, _, rfl, ?_⟩
      rintro hor
      cases hor
      unfold Operator.beforeEquals? at hbinary
      split at hbinary <;> cases hbinary
    next => cases hcomparison

/-- An opening bracket makes no difference to the tokens behind it. -/
theorem inContext_opening (tokens : List Token) :
    inContext (.opening :: tokens) = .opening :: inContext tokens := by
  have hafter : operandBefore (some .opening) = false := rfl
  rw [inContext, Token.inContextAfter_cons fun _ _ => rfl,
    written_of_not_operandBefore rfl]
  exact congrArg (Token.opening :: ·) (inContextAfter_of_not_operandBefore hafter tokens)

end Token

theorem Operator.yieldsTo_or {op : Operator} (h : op ≠ .binary .or) :
    op.yieldsTo (.binary .or) = false := by
  rcases op with op | op
  · cases op <;> rfl
  · cases op
    case or => exact absurd rfl h
    all_goals rfl

theorem Operator.or_yieldsTo (op : Operator) : Operator.yieldsTo (.binary .or) op = true := by
  rcases op with op | op <;> cases op <;> rfl

namespace Yard

variable {a b : List Char}

/-- Where all operators that wait act in any case, they can as well have acted before. -/
theorem result_foldl_released {tokens : List Token}
    (htokens : ∀ t ∈ tokens.head?, t.ReleasesAll) (ops : List Operator) (output : List Rpn)
    (stray stray' : Bool) :
    (tokens.foldl accept ⟨sent ops output, [], stray⟩).result
      = (tokens.foldl accept ⟨output, ops.map .operator, stray'⟩).result := by
  cases tokens with
  | nil => exact (result_map [] _ stray).trans (result_map ops output stray').symm
  | cons t tokens =>
      rw [List.foldl_cons, List.foldl_cons]
      refine result_foldl_accept_of_silent ?_ tokens
      rcases htokens t rfl with rfl | rfl
      · rw [accept, accept, close_map]
        rfl
      · have hyields : ∀ head ∈ ops, Operator.yieldsTo (.binary .or) head = true :=
          fun head _ => Operator.or_yieldsTo head
        have hholds : Holds (.binary .or) [] := fun head hhead => by cases hhead
        have haccept := accept_operator hyields hholds output stray'
        rw [List.append_nil] at haccept
        rw [haccept]
        rfl

/-- The yard at the end of a text. -/
def ofText (text : List Char) : Yard := (tokenize text).tokens.foldl accept {}

theorem count_bracket_ofText (text : List Char) :
    (ofText text).stack.count .bracket = text.foldl Brackets.round.level 0 := by
  rw [ofText, count_bracket_foldl_accept, ← foldl_level_scan]
  exact (Token.rewritten_inContextAfter none _).foldl_level 0

theorem result_ofText_eq_none_iff (text : List Char) :
    (ofText text).result = none ↔ Brackets.round.Unclosed text := by
  rw [Brackets.unclosed_iff, ← count_bracket_ofText, List.count_pos_iff, ← List.contains_iff_mem,
    ← unclosed, result]
  cases (ofText text).unclosed with
  | true => exact ⟨fun _ => rfl, fun _ => rfl⟩
  | false => simp only [Bool.false_eq_true, if_false, reduceCtorEq]

/-- A text without unclosed brackets leaves only operators on the stack. -/
theorem exists_map_ofText (h : ¬ Brackets.round.Unclosed a) :
    ∃ ops : List Operator, (ofText a).stack = ops.map .operator := by
  refine eq_map_of_not_mem (List.count_eq_zero.mp ?_)
  rw [count_bracket_ofText]
  exact Nat.eq_zero_of_not_pos fun hpos => h (Brackets.unclosed_iff.mpr hpos)

theorem ofText_closing (a b : List Char) :
    ofText (a ++ ')' :: b)
      = (Token.inContextAfter (some .closing) (scan b).tokens).foldl accept
          ((ofText a).accept .closing) := by
  have hcut : ∀ t ∈ (scan a).tokens.getLast?,
      ∀ u ∈ (Token.closing :: (scan b).tokens).head?, Token.comparison? t u = none := by
    intro t _ u hu
    cases hu
    exact Token.comparison?_of_ne (fun h => by cases h) t
  have htokens : (scan (a ++ ')' :: b)).tokens
      = (scan a).tokens ++ .closing :: (scan b).tokens := by
    rw [scan_append separator_closing, scan_closing]
    rfl
  simp only [ofText, tokenize]
  rw [htokens, inContext, Token.inContextAfter_append hcut,
    Token.ReleasesAll.inContextAfter_cons (.inl rfl), List.foldl_append]
  rfl

theorem ofText_blank
    (hcut : ∀ t ∈ (scan a).tokens.getLast?, ∀ u ∈ (scan b).tokens.head?,
      Token.comparison? t u = none) :
    ofText (a ++ ' ' :: b)
      = (Token.inContextAfter (Token.lastAfter none (scan a).tokens) (scan b).tokens).foldl accept
          (ofText a) := by
  have htokens : (scan (a ++ ' ' :: b)).tokens = (scan a).tokens ++ (scan b).tokens := by
    rw [scan_append separator_blank, scan_blank]
    rfl
  simp only [ofText, tokenize]
  rw [htokens, inContext, Token.inContextAfter_append hcut, List.foldl_append]
  rfl

theorem stray_ofText_closing (h : ¬ Brackets.round.Unclosed a) (b : List Char) :
    (ofText (a ++ ')' :: b)).stray = true := by
  rcases exists_map_ofText h with ⟨ops, hops⟩
  rw [ofText_closing, accept, hops, close_map, stray_foldl_accept_eq, Bool.true_or]

end Yard

namespace Expression

/-- What becomes of a program, if there is one, and the problems that it has by itself. -/
def ofProgram (deferred : Bool) : Option (List Rpn) → Option Expression × List Fault
  | none => (none, [.unmatchedOpening])
  | some program =>
    if deferred then (some (.deferred program), [])
    else
      let r := evaluate program ()
      (r.value.map constant, r.faults)

/-- The expression of a text is that of its program. A stray bracket adds a warning and does
    nothing else. -/
theorem parse_eq (text : List Char) :
    let y := Yard.ofText text
    let r := ofProgram ((scan text).tokens.any Token.isVariable) y.result
    parse text
      = (r.1, (scan text).faults ++
          ((if y.stray then [.unmatchedClosing] else []) ++ r.2)) := by
  intro y r
  have hvariables : (tokenize text).tokens.any Token.isVariable
      = (scan text).tokens.any Token.isVariable :=
    (Token.rewritten_inContextAfter none _).any_isVariable
  have htokens : Rpn.ofTokens (tokenize text).tokens = (y.result,
      (if y.stray then [.unmatchedClosing] else []) ++
        (if y.unclosed then [.unmatchedOpening] else [])) := by
    simp only [Rpn.ofTokens, Yard.result, y, Yard.ofText]
    split <;> simp
  simp only [parse, htokens, hvariables, r]
  cases hunclosed : y.unclosed with
  | true =>
      have hresult : y.result = none := by rw [Yard.result, if_pos hunclosed]
      simp only [hresult, ofProgram, if_true]
      rfl
  | false =>
      have hresult : y.result = some (Yard.drain y.stack y.output).reverse := by
        rw [Yard.result, hunclosed]
        rfl
      simp only [hresult, ofProgram, Bool.false_eq_true, if_false, List.append_nil]
      split
      · rw [List.append_nil]
        rfl
      · rw [List.append_assoc]
        rfl

end Expression

/-- The problems in `more` are those in `faults`, with at most one warning of a stray
    bracket added. -/
def WarnsMore (faults more : List Fault) : Prop :=
  more = faults ∨
    ∃ before after, faults = before ++ after ∧ more = before ++ .unmatchedClosing :: after

namespace Expression

variable {a : List Char}

/-- Texts with the same program have the same expression. A bracket that is stray in one of
    them adds no more than its warning. -/
theorem parse_of_result_eq {text stray : List Char}
    (hscan : (scan stray).faults = (scan text).faults ∧
      (scan stray).tokens.any Token.isVariable = (scan text).tokens.any Token.isVariable)
    (hresult : (Yard.ofText stray).result = (Yard.ofText text).result)
    (hstray : (Yard.ofText stray).stray = true) :
    (parse stray).1 = (parse text).1 ∧ WarnsMore (parse text).2 (parse stray).2 := by
  rw [parse_eq, parse_eq, hscan.1, hscan.2, hresult, hstray]
  refine ⟨rfl, ?_⟩
  cases (Yard.ofText text).stray with
  | true => exact .inl rfl
  | false => exact .inr ⟨_, _, rfl, rfl⟩

/-- A stray bracket does what the partner of a bracket at the very start would do. -/
theorem parse_unopened (h : ¬ Brackets.round.Unclosed a) (b : List Char) :
    (parse (a ++ ')' :: b)).1 = (parse ('(' :: (a ++ ')' :: b))).1 ∧
      WarnsMore (parse ('(' :: (a ++ ')' :: b))).2 (parse (a ++ ')' :: b)).2 := by
  have hstray := Yard.stray_ofText_closing h b
  refine parse_of_result_eq ?_ ?_ hstray
  · rw [scan_opening]
    exact ⟨rfl, rfl⟩
  · have htokens : (tokenize ('(' :: (a ++ ')' :: b))).tokens
        = .opening :: (tokenize (a ++ ')' :: b)).tokens := by
      simp only [tokenize, scan_opening]
      exact Token.inContext_opening _
    rw [Yard.ofText, Yard.ofText, htokens]
    exact (Yard.result_foldl_accept_opening hstray).symm

/-- A closing bracket is as good as a blank: the same expression is read, and at most one
    warning is added. -/
def Ignored (a b : List Char) : Prop :=
  (parse (a ++ ')' :: b)).1 = (parse (a ++ ' ' :: b)).1 ∧
    WarnsMore (parse (a ++ ' ' :: b)).2 (parse (a ++ ')' :: b)).2

theorem scan_closing_eq_blank (a b : List Char) :
    (scan (a ++ ')' :: b)).faults = (scan (a ++ ' ' :: b)).faults ∧
      (scan (a ++ ')' :: b)).tokens.any Token.isVariable
        = (scan (a ++ ' ' :: b)).tokens.any Token.isVariable := by
  rw [scan_append separator_closing, scan_append separator_blank, scan_closing, scan_blank]
  refine ⟨rfl, ?_⟩
  simp only [Scanned.append, Scanned.withToken, List.any_append, List.any_cons]
  rfl

theorem ignored_of_result_eq (h : ¬ Brackets.round.Unclosed a) {b : List Char}
    (hresult : (Yard.ofText (a ++ ')' :: b)).result = (Yard.ofText (a ++ ' ' :: b)).result) :
    Ignored a b :=
  parse_of_result_eq (scan_closing_eq_blank a b) hresult (Yard.stray_ofText_closing h b)

/-- If the next token lets all operators act, or there is none, the bracket was not needed
    for it. -/
theorem ignored_of_releasesAll (h : ¬ Brackets.round.Unclosed a) {b : List Char}
    (hb : ∀ t ∈ (scan b).tokens.head?, t.ReleasesAll) : Ignored a b := by
  refine ignored_of_result_eq h ?_
  rcases Yard.exists_map_ofText h with ⟨ops, hops⟩
  have hcut : ∀ t ∈ (scan a).tokens.getLast?, ∀ u ∈ (scan b).tokens.head?,
      Token.comparison? t u = none := by
    intro t _ u hu
    refine Token.comparison?_of_ne ?_ t
    rcases hb u hu with rfl | rfl <;> decide
  rcases Token.inContextAfter_of_releasesAll hb with ⟨hsame, hhead⟩
  rw [Yard.ofText_closing, Yard.ofText_blank hcut, hsame, hsame]
  generalize Yard.ofText a = y at hops ⊢
  rcases y with ⟨output, stack, stray⟩
  obtain rfl : stack = ops.map .operator := hops
  rw [Yard.accept, Yard.close_map]
  exact Yard.result_foldl_released (by rwa [hhead]) ops output true stray

/-- Texts with variables have one expression only if they have one program. -/
theorem result_eq_of_parse_eq {text text' : List Char}
    (hvariables : (scan text).tokens.any Token.isVariable = true)
    (hvariables' : (scan text').tokens.any Token.isVariable = true)
    (h : (parse text).1 = (parse text').1) :
    (Yard.ofText text).result = (Yard.ofText text').result := by
  have hdeferred : ∀ result, (ofProgram true result).1 = result.map deferred := by
    intro result
    cases result <;> rfl
  rw [parse_eq, parse_eq, hvariables, hvariables'] at h
  simp only [hdeferred] at h
  exact Option.map_injective (fun _ _ heq => deferred.inj heq) h

/-- A text with nothing but the loosest operator between two operands. -/
def loosest : List Char := "$X|$X".toList

theorem scan_loosest :
    (scan loosest).tokens = [.variable "X", .operator (.binary .or), .variable "X"] := by
  decide +kernel

theorem ofText_loosest : Yard.ofText loosest
    = ⟨[.variable "X", .variable "X"], [.operator (.binary .or)], false⟩ := by
  simp only [Yard.ofText, tokenize, scan_loosest]
  rfl

/-- With the bracket the operator acts at once. -/
theorem result_loosest_closing (b : List Char) :
    (Yard.ofText (loosest ++ ')' :: b)).result
      = ((Token.inContextAfter (some .closing) (scan b).tokens).foldl Yard.accept {}).result.map
          ([.variable "X", .variable "X", .apply (.binary .or)] ++ ·) := by
  have hyard : ((Yard.ofText loosest).accept .closing).silent
      = (Yard.prefixed [.apply (.binary .or), .variable "X", .variable "X"] {}).silent := by
    rw [ofText_loosest]
    rfl
  rw [Yard.ofText_closing, Yard.result_foldl_accept_of_silent hyard, Yard.foldl_accept_output,
    Yard.result_prefixed]
  rfl

/-- Without the bracket it waits. -/
theorem result_loosest_blank (b : List Char) :
    (Yard.ofText (loosest ++ ' ' :: b)).result
      = ((Token.inContextAfter (some .closing) (scan b).tokens).foldl Yard.accept
          ⟨[], [.operator (.binary .or)], false⟩).result.map
            ([.variable "X", .variable "X"] ++ ·) := by
  have hcut : ∀ t ∈ (scan loosest).tokens.getLast?, ∀ u ∈ (scan b).tokens.head?,
      Token.comparison? t u = none := by
    intro t ht u _
    rw [scan_loosest] at ht
    cases ht
    exact Token.comparison?_of_endsOperand rfl u
  have hlast : Token.lastAfter none (scan loosest).tokens = some (.variable "X") := by
    rw [scan_loosest]
    rfl
  have hyard : Yard.ofText loosest
      = Yard.prefixed [.variable "X", .variable "X"] ⟨[], [.operator (.binary .or)], false⟩ :=
    ofText_loosest
  rw [Yard.ofText_blank hcut, hlast, Token.inContextAfter_variable, hyard,
    Yard.foldl_accept_output, Yard.result_prefixed]
  rfl

/-- Where any other token comes next, the loosest operator shows the difference. -/
theorem not_ignored_loosest {b : List Char} (hclosed : ¬ Brackets.round.Unclosed b) {t : Token}
    {rest : List Token} (hb : (scan b).tokens = t :: rest) (ht : ¬ t.ReleasesAll) :
    ¬ Ignored loosest b := by
  intro hignored
  have hvariables : ∀ c, Separator c →
      (scan (loosest ++ c :: b)).tokens.any Token.isVariable = true := by
    intro c hc
    rw [scan_append hc, Scanned.append, List.any_append, scan_loosest]
    rfl
  have hsame := result_eq_of_parse_eq (hvariables ')' separator_closing)
    (hvariables ' ' separator_blank) hignored.1
  have hsome : (Yard.ofText (loosest ++ ')' :: b)).result ≠ none := by
    rw [Ne, Yard.result_ofText_eq_none_iff, Brackets.unclosed_iff, List.foldl_append]
    rwa [Brackets.unclosed_iff] at hclosed
  -- The token after the bracket keeps the loosest operator waiting.
  rcases Token.exists_operator_inContextAfter ht rest with ⟨op, tokens, hfirst, hop⟩
  rw [result_loosest_closing, hb, hfirst] at hsame hsome
  rw [result_loosest_blank, hb, hfirst] at hsame
  rcases Option.ne_none_iff_exists'.mp hsome with ⟨_, hprogram⟩
  rcases Option.map_eq_some_iff.mp hprogram with ⟨program, hresult, _⟩
  rw [hresult, Option.map_some] at hsame
  rcases Option.map_eq_some_iff.mp hsame.symm with ⟨late, hlate, hprograms⟩
  have hnext : late = .apply (.binary .or) :: program :=
    (List.append_right_inj [.variable "X", .variable "X"]).mp hprograms
  rw [hnext] at hlate
  exact Yard.result_ne_of_waits (Operator.yieldsTo_or hop) hop hresult hlate

end Expression

/-- Closing brackets without a partner. Let `a` be a text in which all opening brackets have
    one, so that a closing bracket behind it is stray. Whatever follows, the bracket works as
    if there were an opening one at the very start of the text, but for the warning. It is
    ignored behind all such texts exactly if what follows has no expression at all, since a
    bracket is unclosed there, or begins with another closing bracket or with the loosest
    operator, or has no tokens. -/
theorem stray_ignored_iff (b : List Char) :
    (∀ a, ¬ Brackets.round.Unclosed a →
        (Expression.parse (a ++ ')' :: b)).1 = (Expression.parse ('(' :: (a ++ ')' :: b))).1 ∧
          WarnsMore (Expression.parse ('(' :: (a ++ ')' :: b))).2
            (Expression.parse (a ++ ')' :: b)).2) ∧
      ((∀ a, ¬ Brackets.round.Unclosed a → Expression.Ignored a b) ↔
        Brackets.round.Unclosed b ∨
          ∀ t ∈ (scan b).tokens.head?, t = .closing ∨ t = .operator (.binary .or)) := by
  refine ⟨fun a ha => Expression.parse_unopened ha b, ?_, ?_⟩
  · intro hignored
    by_contra hnot
    rw [not_or] at hnot
    rcases hnot with ⟨hclosed, hnot⟩
    rw [not_forall₂] at hnot
    rcases hnot with ⟨t, ht, hnot⟩
    rcases List.head?_eq_some_iff.mp ht with ⟨rest, hb⟩
    exact Expression.not_ignored_loosest hclosed hb hnot (hignored _ (by decide))
  · rintro (hunclosed | hb) a ha
    · -- A bracket stays open in both texts.
      refine Expression.ignored_of_result_eq ha ?_
      rw [(Yard.result_ofText_eq_none_iff _).mpr ((hunclosed.cons ')').append_left a),
        (Yard.result_ofText_eq_none_iff _).mpr ((hunclosed.cons ' ').append_left a)]
    · exact Expression.ignored_of_releasesAll ha hb

theorem stray_ignored_iff_product :
    (Expression.parse "1+2)*3".toList).1 = (Expression.parse "(1+2)*3".toList).1 ∧
      Expression.Ignored "1+2".toList "|3".toList ∧
      ∃ a, ¬ Brackets.round.Unclosed a ∧ ¬ Expression.Ignored a "*3".toList := by
  have hproduct : (scan "*3".toList).tokens.head? = some (.operator (.binary .multiply)) := by
    decide +kernel
  have hor : (scan "|3".toList).tokens.head? = some (.operator (.binary .or)) := by
    decide +kernel
  have hclosed : ¬ Brackets.round.Unclosed "1+2".toList := by decide
  rcases stray_ignored_iff "*3".toList with ⟨hpartner, hignored⟩
  refine ⟨(hpartner _ hclosed).1, ?_, ?_⟩
  · refine (stray_ignored_iff "|3".toList).2.mpr (.inr fun t ht => .inr ?_) _ hclosed
    exact Option.some.inj (ht.symm.trans hor)
  · by_contra hnone
    rcases hignored.mp fun a ha => by_contra fun hc => hnone ⟨a, ha, hc⟩ with hunclosed | hhead
    · exact absurd hunclosed (by decide)
    · exact absurd (hhead _ hproduct) (by decide)

end TurtleGraphics
