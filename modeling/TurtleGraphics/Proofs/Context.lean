import TurtleGraphics.Expression.Context

/-!
# Reading Tokens Piece by Piece

What a token means depends on the token before it and, for comparisons, on the one
after it. So a list of tokens can be cut in two and each part be read by itself, as
long as the cut does not go through a comparison and the second part is told the
last token of the first (`inContextAfter_append`).

Most of the time not even that token has to be known. Only one thing about it
matters to a sign or to an operand that comes next: whether an operand has just
ended. `inContextAfter_of_not_operandBefore` says so for places where none has, and
`inContextAfter_of_goesOn` for places where one has, provided that what comes next
does go on from an operand.

## Main definitions

* `Token.lastAfter`: The last token read.
* `Token.continues`, `Token.goesOn`: Tokens that can follow an operand.
* `Token.completes`: The tokens by which an operand is complete.

## Theorems

* `Token.inContextAfter_cons`: Reading one token.
* `Token.inContextAfter_append`: Reading two parts.
* `Token.inContextAfter_of_not_operandBefore`: All places without an operand before
  them are alike.
* `Token.written_completes`: What continues an operand completes it.
* `Token.inContextAfter_of_goesOn`: All places after an operand are alike.
-/

namespace TurtleGraphics

namespace Token

theorem comparison?_of_ne {u : Token} (h : u ≠ .operator (.binary .equal)) (t : Token) :
    comparison? t u = none := by
  unfold comparison?
  split
  · exact absurd rfl h
  · rfl

theorem comparison?_of_endsOperand {t : Token} (h : t.endsOperand = true) (u : Token) :
    comparison? t u = none := by
  cases t with
  | number | «variable» | closing => rfl
  | operator | opening => exact absurd h Bool.false_ne_true

/-- A token that forms no comparison with the next one is read by itself. -/
theorem inContextAfter_cons {t : Token} {rest : List Token}
    (h : ∀ u ∈ rest.head?, comparison? t u = none) (last : Option Token) :
    inContextAfter last (t :: rest)
      = written last (placed last t) ++ inContextAfter (some (placed last t)) rest := by
  cases rest with
  | nil => simp only [inContextAfter, List.append_nil]
  | cons u rest => simp only [inContextAfter, h u rfl]

/-- The last token that has been read when a part has been read. -/
def lastAfter (last : Option Token) (tokens : List Token) : Option Token :=
  (inContextAfter last tokens).getLast?.or last

theorem getLast?_written (last : Option Token) (t : Token) :
    (written last t).getLast? = some t := by
  unfold written
  by_cases h : multiplies last t = true
  · rw [if_pos h]
    rfl
  · rw [if_neg h]
    rfl

/-- Two parts are read one after the other, unless a comparison is cut in two. -/
theorem inContextAfter_append {left right : List Token}
    (h : ∀ t ∈ left.getLast?, ∀ u ∈ right.head?, comparison? t u = none)
    (last : Option Token) :
    inContextAfter last (left ++ right)
      = inContextAfter last left ++ inContextAfter (lastAfter last left) right := by
  fun_induction inContextAfter last left with
  | case1 last => rfl
  | case2 last t =>
      have hlast : lastAfter last [t] = some (placed last t) := by
        simp only [lastAfter, inContextAfter, getLast?_written, Option.some_or]
      rw [hlast]
      exact inContextAfter_cons (h t rfl) last
  | case3 last t u rest comparison hcomparison ih =>
      -- The comparison lies in the first part as a whole.
      have hlast : lastAfter last (t :: u :: rest) = lastAfter (some comparison) rest := by
        simp only [lastAfter, inContextAfter, hcomparison, List.getLast?_cons]
        cases (inContextAfter (some comparison) rest).getLast? <;> rfl
      simp only [List.cons_append, inContextAfter, hcomparison, hlast]
      refine congrArg (comparison :: ·) (ih (fun t' ht' => h t' ?_))
      rcases List.getLast?_eq_some_iff.mp ht' with ⟨init, rfl⟩
      exact List.getLast?_eq_some_iff.mpr ⟨t :: u :: init, rfl⟩
  | case4 last t u rest hcomparison ih =>
      have hlast : lastAfter last (t :: u :: rest)
          = lastAfter (some (placed last t)) (u :: rest) := by
        simp only [lastAfter]
        rw [inContextAfter, hcomparison]
        simp only [List.getLast?_append, getLast?_written]
        cases (inContextAfter (some (placed last t)) (u :: rest)).getLast? <;> rfl
      rw [hlast, List.cons_append, List.cons_append, inContextAfter, hcomparison]
      simp only [List.append_assoc]
      refine congrArg (written last (placed last t) ++ ·) (ih (fun t' ht' => h t' ?_))
      rw [List.getLast?_cons_cons]
      exact ht'

theorem written_of_not_operandBefore {last : Option Token} (h : operandBefore last = false)
    (t : Token) : written last t = [t] := by
  have hmultiplies : multiplies last t = false := by
    cases last with
    | none => rfl
    | some l =>
        have hl : l.endsOperand = false := h
        simp only [multiplies, hl, Bool.false_and]
  simp only [written, hmultiplies, Bool.false_eq_true, if_false]

theorem written_of_not_startsOperand {t : Token} (h : t.startsOperand = false)
    (last : Option Token) : written last t = [t] := by
  have hmultiplies : multiplies last t = false := by
    cases last with
    | none => rfl
    | some l => simp only [multiplies, h, Bool.and_false, Bool.false_and]
  simp only [written, hmultiplies, Bool.false_eq_true, if_false]

/-- All places without an operand before them are like the start of a text. -/
theorem inContextAfter_of_not_operandBefore {last : Option Token}
    (h : operandBefore last = false) (tokens : List Token) :
    inContextAfter last tokens = inContextAfter none tokens := by
  have hplaced : ∀ t, placed last t = placed none t := by
    intro t
    simp only [placed, h]
    rfl
  have hwritten : ∀ t, written last t = written none t := by
    intro t
    rw [written_of_not_operandBefore h, written_of_not_operandBefore rfl]
  rcases tokens with _ | ⟨t, _ | ⟨u, rest⟩⟩
  · rfl
  · simp only [inContextAfter, hplaced, hwritten]
  · simp only [inContextAfter, hplaced, hwritten]

/-- Whether a token can follow an operand that ends with `l`. Prefix operators cannot,
    and of two numbers side by side it is not known how they are related. -/
def continues (l : Token) : Token → Bool
  | .number _ => !l.isNumber
  | .operator (.unary op) => op.isPower
  | _ => true

/-- Whether tokens, as they are written, can follow an operand that ends with `l`. An
    operator `!` can as well, if it is the first half of a comparison. -/
def goesOn (l : Token) : List Token → Bool
  | [] => true
  | t :: rest => rest.head?.any (fun u => (comparison? t u).isSome) || l.continues t

theorem goesOn_variable {l : Token} {tokens : List Token} (h : goesOn l tokens = true)
    (name : String) : goesOn (.variable name) tokens = true := by
  cases tokens with
  | nil => rfl
  | cons t rest =>
      rcases Bool.or_eq_true_iff.mp h with hcomparison | hcontinues
      · exact Bool.or_eq_true_iff.mpr (.inl hcomparison)
      · refine Bool.or_eq_true_iff.mpr (.inr ?_)
        cases t with
        | number | «variable» | opening | closing => rfl
        | operator op =>
            cases op with
            | unary op => exact hcontinues
            | binary op => rfl

/-- The tokens by which the operand before them is complete. -/
def completes : Token → Bool
  | .operator (.binary _) | .closing => true
  | .operator (.unary op) => op.isPower
  | _ => false

theorem completes_comparison {t u comparison : Token} (h : comparison? t u = some comparison) :
    comparison.completes = true := by
  unfold comparison? at h
  split at h
  · rcases Option.map_eq_some_iff.mp h with ⟨op, _, rfl⟩
    rfl
  · exact absurd h (by simp only [reduceCtorEq, not_false_eq_true])

theorem completes_of_continues {l t : Token} (h : l.continues t = true)
    (ht : t.startsOperand = false) : t.completes = true := by
  cases t with
  | number | «variable» | opening => exact absurd ht (by simp only [startsOperand,
      Bool.true_eq_false, not_false_eq_true])
  | closing => rfl
  | operator op =>
      cases op with
      | binary op => rfl
      | unary op => exact h

theorem written_of_continues {l t : Token} (hl : l.endsOperand = true)
    (h : l.continues t = true) (ht : t.startsOperand = true) :
    written (some l) t = [.operator (.binary .multiply), t] := by
  have hnumber : (l.isNumber && t.isNumber) = false := by
    cases t with
    | number v => rw [(Bool.not_eq_true' _).mp h, Bool.false_and]
    | «variable» | operator | opening | closing => simp only [isNumber, Bool.and_false]
  simp only [written, multiplies, hl, ht, hnumber, Bool.not_false, Bool.and_true, if_true]

/-- A token that continues an operand is read in the same way after every operand, and
    completes it: either it does so by itself, or a multiplication sign is put before
    it. -/
theorem written_completes {l t : Token} (hl : l.endsOperand = true)
    (h : l.continues t = true) :
    written (some l) t = written (some .closing) t ∧
      ∃ first rest, written (some .closing) t = first :: rest ∧ first.completes = true := by
  cases ht : t.startsOperand with
  | true =>
      have hclosing : continues .closing t = true := by
        cases t with
        | number | «variable» | opening => rfl
        | operator | closing => exact absurd ht Bool.false_ne_true
      rw [written_of_continues hl h ht, written_of_continues rfl hclosing ht]
      exact ⟨rfl, _, _, rfl, rfl⟩
  | false =>
      rw [written_of_not_startsOperand ht, written_of_not_startsOperand ht]
      exact ⟨rfl, _, _, rfl, completes_of_continues h ht⟩

/-- All places after an operand are alike, and the next token completes the operand. -/
theorem inContextAfter_of_goesOn {l : Token} {tokens : List Token}
    (hl : l.endsOperand = true) (h : goesOn l tokens = true) :
    inContextAfter (some l) tokens = inContextAfter (some .closing) tokens ∧
      ∀ t ∈ (inContextAfter (some .closing) tokens).head?, t.completes = true := by
  -- After an operand no sign is read, whatever token the operand ends with.
  have hplaced : ∀ t, placed (some l) t = t := fun t => if_pos hl
  have hclosing : ∀ t, placed (some .closing) t = t := fun t => if_pos rfl
  rcases tokens with _ | ⟨t, _ | ⟨u, rest⟩⟩
  · exact ⟨rfl, fun t ht => absurd ht (by simp only [inContextAfter, List.head?_nil,
      Option.not_mem_none, not_false_eq_true])⟩
  · rcases written_completes hl (t := t) (by simpa [goesOn] using h) with
      ⟨heq, first, rest, hfirst, hcompletes⟩
    simp only [inContextAfter, hplaced, hclosing, heq, hfirst, true_and]
    exact fun t ht => Option.some.inj ht ▸ hcompletes
  · cases hcomparison : comparison? t u with
    | some comparison =>
        simp only [inContextAfter, hcomparison, true_and]
        exact fun t ht => Option.some.inj ht ▸ completes_comparison hcomparison
    | none =>
        rcases written_completes hl (t := t) (by simpa [goesOn, hcomparison] using h) with
          ⟨heq, first, rest', hfirst, hcompletes⟩
        simp only [inContextAfter, hcomparison, hplaced, hclosing, heq, hfirst, true_and]
        exact fun t ht => Option.some.inj ht ▸ hcompletes

end Token

end TurtleGraphics
