import Mathlib
import TurtleGraphics.Proofs.Causes
import TurtleGraphics.Turtle.Execute

/-!
# Results Stay in Range

An expression comes to a finite number in the range of 32-bit signed integers, or to none
at all, and arguments without a value fall back on a number that was written into the
program's own rules. So the number of rounds that a loop is told to run is never infinite,
and it is at most 2147483647.

Both are facts about the numbers themselves. Results are compared by the order of binary64
numbers, while rounds are counted by taking a number apart into units. The two are brought
together where a number is taken apart: `Scalar.unpack_of_parts` says that the parts found
here are those that the order looks at.

The bodies of loops are in the program, so a program has clamped loops all the way down.
That holds of everything that is read from a text, for counts come from expressions.

## Main definitions

* `Scalar.InRange`: Finite, and not outside of the range of results.
* `Expression.InRange`, `Arg.InRange`: What comes to a number in range.
* `Command.Clamped`: Commands in which every count is in range.

## Theorems

* `Scalar.unpack_of_parts`: The parts of a number are those that the order looks at.
* `Scalar.wholeBelow_le`: There are at most 2147483647 whole ones in a number in range.
* `inRange_evaluateFrom`: A formula comes to a number in range.
* `Statement.clamped_command`: So a statement that has a count has one in range.
* `clamped_of_mem_parse`: Programs that are read from a text are clamped.
-/

namespace TurtleGraphics

namespace Scalar

open Float.Model

theorem toNat_unpackMantissa (b : BitVec 64) :
    (@UnpackedFloat.unpackMantissa .binary64 b).toNat = b.toNat % 2 ^ 52 := by
  simp only [UnpackedFloat.unpackMantissa, BitVec.toNat_cast, BitVec.extractLsb_toNat,
    Nat.shiftRight_zero]

theorem toNat_unpackExponent (b : BitVec 64) :
    (@UnpackedFloat.unpackExponent .binary64 b).toNat = b.toNat / 2 ^ 52 % 2048 := by
  simp only [UnpackedFloat.unpackExponent, BitVec.toNat_cast, BitVec.extractLsb_toNat,
    Nat.shiftRight_eq_div_pow]

theorem toNat_unpackSign (b : BitVec 64) :
    (@UnpackedFloat.unpackSign .binary64 b).toNat = b.toNat / 2 ^ 63 % 2 := by
  simp only [UnpackedFloat.unpackSign, BitVec.toNat_cast, BitVec.extractLsb_toNat,
    Nat.shiftRight_eq_div_pow]

/-- A mantissa with its leading one. -/
theorem toNat_implied (b : BitVec 64) :
    (1#1 ++ @UnpackedFloat.unpackMantissa .binary64 b).toNat = b.toNat % 2 ^ 52 + 2 ^ 52 := by
  rw [BitVec.toNat_append, ← Nat.shiftLeft_add_eq_or_of_lt (BitVec.isLt _),
    toNat_unpackMantissa, Nat.add_comm]
  rfl

/-- What the word of a scalar is, if the scalar is finite and has no sign. -/
theorem of_parts_finite {v : Scalar} {m s : Nat} (h : parts v = .finite false m s) :
    let word := v.toBits.toNat
    let exponent := word / 2 ^ 52 % 2048
    word < 2 ^ 63 ∧ exponent ≠ 2047 ∧
      (exponent = 0 ∧ m = word % 2 ^ 52 ∧ s = 0 ∨
        exponent ≠ 0 ∧ m = word % 2 ^ 52 + 2 ^ 52 ∧ s + 1 = exponent) := by
  intro word exponent
  unfold parts at h
  simp only at h
  split at h
  next => split at h <;> cases h
  next hfinite =>
    split at h
    next hzero =>
      injection h with hsign hm hs
      exact ⟨Nat.lt_of_not_le (of_decide_eq_false hsign), hfinite, .inl ⟨hzero, hm.symm, hs.symm⟩⟩
    next hnormal =>
      injection h with hsign hm hs
      refine ⟨Nat.lt_of_not_le (of_decide_eq_false hsign), hfinite, .inr ⟨hnormal, hm.symm, ?_⟩⟩
      rw [← hs]
      exact Nat.succ_pred_eq_of_ne_zero hnormal

section

variable {b : BitVec 64}

theorem ofBitVec_unpackSign (h : b.toNat < 2 ^ 63) :
    UnpackedFloat.Sign.ofBitVec (@UnpackedFloat.unpackSign .binary64 b) = .positive := by
  refine if_pos (BitVec.eq_of_toNat_eq ?_)
  rw [toNat_unpackSign, Nat.div_eq_of_lt h]
  rfl

/-- A word with the smallest exponent field: the fraction is all of the mantissa. -/
theorem unpack_of_smallest (hsign : b.toNat < 2 ^ 63) (hexponent : b.toNat / 2 ^ 52 % 2048 = 0)
    (hm : 0 < b.toNat % 2 ^ 52) :
    UnpackedFloat.unpack .binary64 b = .finite .positive (b.toNat % 2 ^ 52) (-1074) hm := by
  have hzero : @UnpackedFloat.unpackExponent .binary64 b = 0#11 := by
    refine BitVec.eq_of_toNat_eq ?_
    rw [toNat_unpackExponent, hexponent]
    rfl
  have hlargest : ¬ 0#11 = -1#11 := by decide
  have hmantissa : ¬ @UnpackedFloat.unpackMantissa .binary64 b = 0#52 := by
    intro hnil
    have hfraction := toNat_unpackMantissa b
    rw [hnil] at hfraction
    rw [← hfraction] at hm
    exact absurd hm (by decide)
  unfold UnpackedFloat.unpack
  simp only [ofBitVec_unpackSign hsign, hzero, if_neg hlargest, if_true, dif_neg hmantissa,
    UnpackedFloat.finite.injEq, toNat_unpackMantissa]
  exact ⟨trivial, trivial, rfl⟩

/-- A word with any other exponent field but the largest: the leading one is implied. -/
theorem unpack_of_implied (hsign : b.toNat < 2 ^ 63) (hzero : b.toNat / 2 ^ 52 % 2048 ≠ 0)
    (hlargest : b.toNat / 2 ^ 52 % 2048 ≠ 2047) :
    UnpackedFloat.unpack .binary64 b =
      .finite .positive (b.toNat % 2 ^ 52 + 2 ^ 52)
        ((b.toNat / 2 ^ 52 % 2048 : Nat) - 1075 : Int) (Nat.add_pos_right _ (by decide)) := by
  have hexponent := toNat_unpackExponent b
  have hnonzero : ¬ @UnpackedFloat.unpackExponent .binary64 b = 0#11 := by
    intro heq
    rw [heq] at hexponent
    exact hzero hexponent.symm
  have hfinite : ¬ @UnpackedFloat.unpackExponent .binary64 b = -1#11 := by
    intro heq
    rw [heq] at hexponent
    exact hlargest hexponent.symm
  unfold UnpackedFloat.unpack
  simp only [ofBitVec_unpackSign hsign, if_neg hfinite, if_neg hnonzero,
    UnpackedFloat.finite.injEq, hexponent]
  exact ⟨trivial, toNat_implied b, rfl⟩

end

/-- The parts of a positive scalar are those that the order looks at. -/
theorem unpack_of_parts {v : Scalar} {m s : Nat} (h : parts v = .finite false m s) (hm : 0 < m) :
    v.toModel.unpack = .finite .positive m ((s : Int) - 1074) hm ∧ m < 2 ^ 53 := by
  rcases of_parts_finite h with ⟨hsign, hfinite, ⟨hzero, rfl, rfl⟩ | ⟨hzero, rfl, hs⟩⟩
  · refine ⟨unpack_of_smallest hsign hzero hm, ?_⟩
    omega
  · refine ⟨(unpack_of_implied hsign hzero hfinite).trans ?_, ?_⟩
    · -- The scale starts at the smallest exponent, and two fields stand for that one.
      have hscale : ((v.toBits.toNat / 2 ^ 52 % 2048 : Nat) - 1075 : Int) = (s : Int) - 1074 := by
        omega
      exact congrArg (UnpackedFloat.finite .positive _ · _) hscale
    · omega

/-- What the word of a scalar is, if the scalar is the infinite one above all others. -/
theorem of_parts_infinite {v : Scalar} (h : parts v = .infinite false) :
    v.toBits.toNat = 2047 * 2 ^ 52 := by
  have hlt := v.toBits.toNat_lt
  unfold parts at h
  simp only at h
  split at h
  next hlargest =>
    split at h
    next hfraction =>
      injection h with hsign
      have hbelow := of_decide_eq_false hsign
      change v.toBits.toNat / 2 ^ 52 % 2048 = 2047 at hlargest
      change v.toBits.toNat % 2 ^ 52 = 0 at hfraction
      change ¬ 2 ^ 63 ≤ v.toBits.toNat at hbelow
      omega
    next => cases h
  next => split at h <;> cases h

theorem unpack_of_infinite {v : Scalar} (h : parts v = .infinite false) :
    v.toModel.unpack = .infinity .positive := by
  have hword : v.toModel.toBits.toBitVec = 0x7FF0000000000000#64 :=
    BitVec.eq_of_toNat_eq (of_parts_infinite h)
  unfold Float.Model.unpack
  rw [hword]
  rfl

/-- Units are divided by taking bits off the mantissa. -/
theorem mul_pow_div_pow (m : Nat) {s n : Nat} (h : s ≤ n) :
    m * Nat.pow 2 s / Nat.pow 2 n = m / 2 ^ (n - s) := by
  have hsplit : Nat.pow 2 n = 2 ^ (n - s) * 2 ^ s := (Nat.pow_sub_mul_pow 2 h).symm
  rw [hsplit]
  exact Nat.mul_div_mul_right _ _ (Nat.two_pow_pos s)

/-- The units of `1` with the exponent kept out of sight, as nothing comes of working them
    out. -/
theorem exists_unitsPerOne : ∃ n, n = 1074 ∧ unitsPerOne = Nat.pow 2 n :=
  ⟨1074, rfl, by delta unitsPerOne; exact Eq.refl _⟩

/-- No scalar in the range of results has more whole ones below it than the range. -/
theorem wholeBelow_le {v : Scalar} (h : ¬ maxResult < v) : wholeBelow v ≤ 2147483647 := by
  unfold wholeBelow
  split
  next m s hparts =>
    rcases Nat.eq_zero_or_pos m with rfl | hm
    · rw [Nat.zero_mul, Nat.zero_div]
      exact Nat.zero_le _
    -- Positive numbers are compared by their scales, and then by their mantissas.
    rcases unpack_of_parts hparts hm with ⟨hv, hbound⟩
    have hmax : parts maxResult = .finite false (2147483647 * 2 ^ 22) 1052 := by decide +kernel
    have hmaxResult := (unpack_of_parts hmax (by decide)).1
    rw [lt_iff_unpack, hv, hmaxResult, UnpackedFloat.compare, Option.some.injEq,
      Ordering.then_eq_lt, Int.compare_eq_lt, Int.compare_eq_eq, Nat.compare_eq_lt] at h
    have hscale : s ≤ 1052 := by omega
    -- The bits of the mantissa that are below `1` are those that its scale is short of it.
    obtain ⟨n, hn, hone⟩ := exists_unitsPerOne
    rw [hone, mul_pow_div_pow m (by omega), hn]
    rcases Nat.eq_or_lt_of_le hscale with rfl | hs
    · exact Nat.div_le_of_le_mul (by omega)
    · -- On a smaller scale no mantissa is long enough to come near.
      have hpow : 2 ^ 23 ≤ 2 ^ (1074 - s) := Nat.pow_le_pow_right (by decide) (by omega)
      have hle := Nat.div_le_div_left (a := m) hpow (by decide)
      omega
  next hparts =>
    refine absurd ?_ h
    rw [lt_iff_unpack, unpack_of_infinite hparts]
    rfl
  next => exact Nat.zero_le _

/-- Finite, and in the range of results. -/
structure InRange (v : Scalar) : Prop where
  finite : v.isFinite = true
  lower : ¬ v < minResult
  upper : ¬ maxResult < v

theorem inRange_zero : InRange 0.0 :=
  ⟨by decide +kernel, by decide +kernel, by decide +kernel⟩

theorem inRange_clampResult {v : Scalar} (h : v.isFinite = true) : (clampResult v).InRange := by
  by_cases hlower : v < minResult
  · rw [clampResult_of_below hlower]
    exact ⟨by decide +kernel, by decide +kernel, by decide +kernel⟩
  · by_cases hupper : maxResult < v
    · rw [clampResult_of_above hupper]
      exact ⟨by decide +kernel, by decide +kernel, by decide +kernel⟩
    · rw [clampResult_of_within hlower hupper]
      exact ⟨h, hlower, hupper⟩

end Scalar

theorem inRange_conclude {stack : List Scalar} {v : Scalar} (h : (conclude stack).1 = some v) :
    v.InRange := by
  unfold conclude at h
  split at h
  next => cases h
  next w =>
    split at h
    next hfinite =>
      cases h
      exact Scalar.inRange_clampResult hfinite
    next => cases h
  next => cases h

section

variable {σ : Type} [Variables σ]

/-- Whatever happens on the way, what a formula comes to goes through `conclude`. -/
theorem inRange_evaluateFrom (program : List Rpn) (stack : List Scalar) (s : σ) {v : Scalar}
    (h : (evaluateFrom program stack s).value = some v) : v.InRange := by
  induction program generalizing stack s with
  | nil => exact inRange_conclude h
  | cons step rest ih =>
      cases step with
      | number w => exact ih (w :: stack) s h
      | «variable» name =>
          simp only [evaluateFrom] at h
          rcases hread : Variables.read name s with ⟨_ | w, s'⟩
          · rw [hread] at h
            exact ih (0.0 :: stack) s' h
          · rw [hread] at h
            exact ih (w :: stack) s' h
      | apply op =>
          -- Without enough operands there is no value.
          cases op with
          | unary op =>
              rcases stack with _ | ⟨a, stack⟩
              · cases h
              · exact ih (op.apply a :: stack) s h
          | binary op =>
              rcases stack with _ | ⟨b, _ | ⟨a, stack⟩⟩
              · cases h
              · cases h
              · exact ih (op.apply a b :: stack) s h

/-- A value that was found in range, or a formula. -/
def Expression.InRange : Expression → Prop
  | .constant v => v.InRange
  | .deferred _ => True

theorem Expression.inRange_of_parse {text : List Char} {e : Expression}
    (h : (Expression.parse text).1 = some e) : e.InRange := by
  unfold Expression.parse at h
  simp only at h
  split at h
  next => cases h
  next =>
    split at h
    next =>
      cases h
      trivial
    next =>
      -- Without variables the value is computed at once, in a context that has none.
      rcases Option.map_eq_some_iff.mp h with ⟨v, hv, rfl⟩
      exact inRange_evaluateFrom _ [] () hv

theorem Expression.inRange_eval {e : Expression} (he : e.InRange) (s : σ) {v : Scalar}
    (h : (e.eval s).value = some v) : v.InRange := by
  cases e with
  | constant w =>
      cases h
      exact he
  | deferred program => exact inRange_evaluateFrom program [] s h

/-- An argument that comes to a value in range. -/
structure Arg.InRange (a : Arg) : Prop where
  expr : a.expr.InRange
  default : a.default.InRange

theorem Arg.inRange_eval {a : Arg} (ha : a.InRange) (s : σ) : (a.eval s).value.InRange := by
  simp only [Arg.eval]
  cases hvalue : (a.expr.eval s).value with
  | none => exact ha.default
  | some v => exact Expression.inRange_eval ha.expr s hvalue

end

theorem Params.inRange_firstArg (ps : Params) {default : Scalar} (h : default.InRange) :
    (ps.firstArg default).value.InRange := by
  simp only [Params.firstArg, Noted.value_bind, Noted.value_pure]
  refine ⟨?_, h⟩
  cases hfirst : ps.firstExpression.value with
  | none => exact h
  | some e =>
      -- It is the expression of the first parameter, if there is one.
      rcases ps with ⟨_ | ⟨p, items⟩, ending⟩
      · cases hfirst
      · exact Expression.inRange_of_parse hfirst

/-- Commands in which the count of every loop is in range, however deep inside. -/
inductive Command.Clamped : Command → Prop where
  | basic (i : Instruction) : Clamped (.basic i)
  | loop {count : Arg} {body : List Command} (hcount : count.InRange)
      (hbody : ∀ c ∈ body, Clamped c) : Clamped (.loop count body)
  | condition {test : Arg} {body : List Command} (hbody : ∀ c ∈ body, Clamped c) :
      Clamped (.condition test body)
  | define {name : String} {params : List (Option String)} {body : List Command}
      (hbody : ∀ c ∈ body, Clamped c) : Clamped (.define name params body)
  | call (name : String) (args : List Arg) : Clamped (.call name args)

section

variable {nested : Block → Noted (List Command)}

theorem Body.clamped_commands {body : Body} (h : ∀ b, ∀ c ∈ (nested b).value, c.Clamped)
    {span : Span} {commands : List Command}
    (hcommands : (body.commands nested span).value = some commands) :
    ∀ c ∈ commands, c.Clamped := by
  cases body with
  | absent => cases hcommands
  | unopened =>
      cases hcommands
      exact nofun
  | block b =>
      cases hcommands
      exact h b

theorem Statement.clamped_procedure {s : Statement} {body : Option (List Command)}
    (h : ∀ commands, body = some commands → ∀ c ∈ commands, c.Clamped) {c : Command}
    (hc : (s.procedure body).value = some c) : c.Clamped := by
  unfold Statement.procedure at hc
  cases hname : s.name with
  | none =>
      rw [hname] at hc
      cases hc
  | some name =>
      rw [hname] at hc
      cases body with
      | none =>
          cases hc
          exact .call _ _
      | some commands =>
          cases hc
          exact .define (h commands rfl)

theorem Statement.clamped_assignment {s : Statement} {c : Command}
    (hc : s.assignment.value = some c) : c.Clamped := by
  simp only [Statement.assignment, Noted.value_bind] at hc
  split at hc
  next =>
    cases hc
    exact .basic _
  next => cases hc
  next => cases hc

/-- The command of a statement is clamped, if those of bodies are. -/
theorem Statement.clamped_command {s : Statement}
    (h : ∀ b, ∀ c ∈ (nested b).value, c.Clamped) {c : Command}
    (hc : (s.command nested).value = some c) : c.Clamped := by
  have hbody : ∀ commands, (s.body.commands nested s.span).value = some commands →
      ∀ c ∈ commands, c.Clamped := fun _ => Body.clamped_commands h
  simp only [Statement.command, Noted.value_bind] at hc
  -- A count is an argument that falls back on zero; no other code has one.
  cases hcode : s.code with
  | loop =>
      rw [hcode] at hc
      simp only [Noted.value_bind, Noted.value_pure] at hc
      rcases Option.map_eq_some_iff.mp hc with ⟨commands, hcommands, rfl⟩
      exact .loop (s.params.inRange_firstArg Scalar.inRange_zero) (hbody commands hcommands)
  | condition =>
      rw [hcode] at hc
      simp only [Noted.value_bind] at hc
      cases hcommands : (s.body.commands nested s.span).value with
      | none =>
          rw [hcommands] at hc
          cases hc
      | some commands =>
          rw [hcommands] at hc
          cases hc
          exact .condition (hbody commands hcommands)
  | procedure =>
      rw [hcode] at hc
      exact Statement.clamped_procedure hbody hc
  | assign =>
      rw [hcode] at hc
      exact Statement.clamped_assignment hc
  | _ =>
      rw [hcode] at hc
      rcases Option.map_eq_some_iff.mp hc with ⟨i, -, rfl⟩
      exact .basic i

theorem clamped_of_mem_commandsOf (h : ∀ b, ∀ c ∈ (nested b).value, c.Clamped)
    {items : List Item} {c : Command} (hc : c ∈ (commandsOf nested items).value) :
    c.Clamped := by
  rw [value_commandsOf] at hc
  rcases List.mem_filterMap.mp hc with ⟨item, -, hitem⟩
  cases item with
  | statement s => exact Statement.clamped_command h hitem
  | unknown ch pos => cases hitem

end

/-- Commands that are read from a text are clamped, by induction on how deep bodies may be
    nested. -/
theorem clamped_of_mem_commandsAt {room start : Nat} {text : List Char} {c : Command}
    (h : c ∈ (commandsAt room start text).value) : c.Clamped := by
  induction room generalizing start text c with
  | zero =>
      rw [commandsAt_eq] at h
      exact clamped_of_mem_commandsOf (fun _ _ hc => absurd hc List.not_mem_nil) h
  | succ room ih =>
      rw [commandsAt_eq] at h
      exact clamped_of_mem_commandsOf (fun _ _ => ih) h

theorem clamped_of_mem_parse {source : String} {c : Command}
    (h : c ∈ (Program.parse source).value) : c.Clamped :=
  clamped_of_mem_commandsAt h

end TurtleGraphics
