import Mathlib.Data.List.Induction
import Mathlib.Data.List.TakeWhile
import Mathlib.Data.Rat.Lemmas
import Mathlib.Tactic.FieldSimp
import Mathlib.Tactic.Ring
import TurtleGraphics.Proofs.Lexing

/-!
# Numbers with Any Number of Dots

A number in an expression is a run of digits and dots, and any such run is a number, with
no dot in it or with many. Dots in a row count as one dot, and of the dots that are then
left only the first is a decimal point: the second ends the number. Both rules together
say which digits count. They are those before the first dot, `wholeBlock`, and those
between the first dots and the next dot after them, `fractionBlock`. What follows in the
run is read and has no effect.

The two blocks are found in the run as it is written, by its dots alone. The number is
what is read from the two blocks with one point between them; where neither has a digit
there is nothing to read, and the number is zero.

## Main definitions

* `wholeBlock`, `fractionBlock`: The digits before the point and behind it.
* `Decimal.ofBlocks`: The decimal with these digits.
* `Decimal.value`: The number that a decimal stands for.

## Theorems

* `exists_eq_blocks`: A run is its two blocks, dots between them and what is ignored.
* `collapseDots_dot`: The dots after a dot are dropped.
* `leadingDecimal_collapseDots`: Which digits of a run count.
* `Decimal.value_ofBlocks`: What a digit behind the point is worth.
* `Scalar.read?_blocks`: What the two blocks read as, with one point between them.
* `run_is_maximal`, `firstToken_of_isNumberChar`: A run is read as far as it goes.
* `scan_number_run`: A run is read to its end, and its blocks are its number.
-/

namespace TurtleGraphics

/-- The digits of a run before its first dot. -/
def wholeBlock (run : List Char) : List Char := run.takeWhile (· != '.')

/-- What comes after the first dots of a run. -/
def behindDots (run : List Char) : List Char :=
  (run.dropWhile (· != '.')).dropWhile (· == '.')

/-- The digits of a run between its first dots and the next dot. -/
def fractionBlock (run : List Char) : List Char := (behindDots run).takeWhile (· != '.')

namespace Decimal

/-- The decimal with these digits before its point and behind it. -/
def ofBlocks (whole fraction : List Char) : Decimal :=
  ⟨digitsValue (whole ++ fraction), -Int.ofNat fraction.length⟩

/-- The number that a decimal stands for. -/
def value (d : Decimal) : ℚ := d.digits * 10 ^ d.exponent

end Decimal

/-- Where one kind of characters ends, the other kind begins or the text ends. -/
theorem dropWhile_eq_nil_of_takeWhile {p q : Char → Bool} (h : ∀ c, p c = false → q c = true)
    {s : List Char} (hs : (s.dropWhile p).takeWhile q = []) : s.dropWhile p = [] := by
  have hhead := List.head?_dropWhile_not p s
  cases hrest : s.dropWhile p with
  | nil => rfl
  | cons c rest =>
      rw [hrest] at hhead hs
      rw [List.takeWhile_cons_of_pos (h c hhead)] at hs
      cases hs

/-- A run of digits and dots has digits up to its first dot, dots up to the next digit, and
    digits up to the next dot. Without dots there are no digits behind them, and where there
    are none the run is over, so there is no other way to divide it like this. -/
theorem exists_eq_blocks (run : List Char) :
    ∃ dots ignored, run = wholeBlock run ++ dots ++ fractionBlock run ++ ignored ∧
      (∀ c ∈ dots, c = '.') ∧ (∀ c ∈ ignored.head?, c = '.') ∧
      (dots = [] → fractionBlock run = []) ∧ (fractionBlock run = [] → ignored = []) := by
  refine ⟨(run.dropWhile (· != '.')).takeWhile (· == '.'),
    (behindDots run).dropWhile (· != '.'), ?_, ?_, ?_, ?_, ?_⟩
  · rw [List.append_assoc, fractionBlock, List.takeWhile_append_dropWhile, List.append_assoc,
      behindDots, List.takeWhile_append_dropWhile, wholeBlock, List.takeWhile_append_dropWhile]
  · intro c hc
    simpa using List.mem_takeWhile_imp hc
  · intro c hc
    have hhead := List.head?_dropWhile_not (· != '.') (behindDots run)
    rw [Option.mem_def.mp hc] at hhead
    simpa using hhead
  · intro hdots
    have hrest : run.dropWhile (· != '.') = [] :=
      dropWhile_eq_nil_of_takeWhile (fun c hc => by simpa using hc) hdots
    simp [fractionBlock, behindDots, hrest]
  · intro hfraction
    have hbehind : behindDots run = [] :=
      dropWhile_eq_nil_of_takeWhile (fun c hc => by simpa using hc) hfraction
    rw [hbehind]
    rfl

theorem behindDots_suffix (run : List Char) : behindDots run <:+ run :=
  (List.dropWhile_suffix _).trans (List.dropWhile_suffix _)

theorem isNumberChar_iff (c : Char) :
    isNumberChar c = true ↔ c.isDigit = true ∨ c = '.' := by
  simp [isNumberChar]

/-- In a run the digits end where there is a dot. -/
theorem isDigit_eq_ne_dot {c : Char} (h : isNumberChar c = true) : c.isDigit = (c != '.') := by
  rcases (isNumberChar_iff c).mp h with hdigit | rfl
  · have hne : c ≠ '.' := by
      rintro rfl
      exact absurd hdigit (by decide)
    rw [hdigit, bne_iff_ne.mpr hne]
  · decide

theorem takeWhile_isDigit {s : List Char} (h : ∀ c ∈ s, isNumberChar c = true) :
    s.takeWhile Char.isDigit = s.takeWhile (· != '.') := by
  induction s with
  | nil => rfl
  | cons c s ih =>
      rw [List.takeWhile_cons, List.takeWhile_cons, isDigit_eq_ne_dot (h c List.mem_cons_self),
        ih fun d hd => h d (List.mem_cons_of_mem c hd)]

theorem dropWhile_isDigit {s : List Char} (h : ∀ c ∈ s, isNumberChar c = true) :
    s.dropWhile Char.isDigit = s.dropWhile (· != '.') := by
  induction s with
  | nil => rfl
  | cons c s ih =>
      rw [List.dropWhile_cons, List.dropWhile_cons, isDigit_eq_ne_dot (h c List.mem_cons_self),
        ih fun d hd => h d (List.mem_cons_of_mem c hd)]

theorem isDigit_of_mem_takeWhile {s : List Char} (h : ∀ c ∈ s, isNumberChar c = true) {c : Char}
    (hc : c ∈ s.takeWhile (· != '.')) : c.isDigit = true := by
  rw [← takeWhile_isDigit h] at hc
  exact List.mem_takeWhile_imp hc

/-- What stands in the two blocks of a run are digits. -/
theorem isDigit_of_mem_blocks {run : List Char} (h : ∀ c ∈ run, isNumberChar c = true) :
    (∀ c ∈ wholeBlock run, c.isDigit = true) ∧ ∀ c ∈ fractionBlock run, c.isDigit = true := by
  have hbehind : ∀ c ∈ behindDots run, isNumberChar c = true :=
    fun c hc => h c ((behindDots_suffix run).subset hc)
  exact ⟨fun c hc => isDigit_of_mem_takeWhile h hc,
    fun c hc => isDigit_of_mem_takeWhile hbehind hc⟩

section Collapsing

theorem collapseDots_of_ne {c : Char} (h : c ≠ '.') (s : List Char) :
    collapseDots (c :: s) = c :: collapseDots s := by
  rw [collapseDots]
  intro rest heq
  exact absurd heq h

/-- The dots after a dot are dropped. -/
theorem collapseDots_dot (s : List Char) :
    collapseDots ('.' :: s) = '.' :: collapseDots (s.dropWhile (· == '.')) := by
  induction s with
  | nil => rfl
  | cons c s ih =>
      by_cases hc : c = '.'
      · rw [hc, collapseDots, ih]
        rfl
      · have hstop : (c :: s).dropWhile (· == '.') = c :: s :=
          List.dropWhile_cons_of_neg (by simpa using hc)
        rw [hstop, collapseDots]
        intro rest _ heq
        exact absurd heq (by simpa using fun h _ => hc h)

theorem mem_of_mem_collapseDots {c : Char} {s : List Char} (h : c ∈ collapseDots s) :
    c ∈ s := by
  fun_induction collapseDots s with
  | case1 rest ih => exact List.mem_cons_of_mem _ (ih h)
  | case2 d rest _ ih =>
      rcases List.mem_cons.mp h with rfl | h
      · exact List.mem_cons_self
      · exact List.mem_cons_of_mem d (ih h)
  | case3 => exact h

theorem takeWhile_collapseDots (s : List Char) :
    (collapseDots s).takeWhile (· != '.') = s.takeWhile (· != '.') := by
  induction s with
  | nil => rfl
  | cons c s ih =>
      by_cases hc : c = '.'
      · rw [hc, collapseDots_dot]
        rfl
      · rw [collapseDots_of_ne hc, List.takeWhile_cons, List.takeWhile_cons, ih]

theorem dropWhile_collapseDots (s : List Char) :
    (collapseDots s).dropWhile (· != '.') = collapseDots (s.dropWhile (· != '.')) := by
  induction s with
  | nil => rfl
  | cons c s ih =>
      by_cases hc : c = '.'
      · rw [hc, List.dropWhile_cons_of_neg (by decide), collapseDots_dot]
        rfl
      · have hne : (c != '.') = true := bne_iff_ne.mpr hc
        rw [collapseDots_of_ne hc, List.dropWhile_cons, List.dropWhile_cons, if_pos hne,
          if_pos hne, ih]

end Collapsing

/-- The digits of a run that count are its two blocks. After the dots in a row have become
    one, the first dot is still where it was, and what is left behind it starts with what
    came after all of the first dots. -/
theorem leadingDecimal_collapseDots {run : List Char} (h : ∀ c ∈ run, isNumberChar c = true) :
    leadingDecimal (collapseDots run) = .ofBlocks (wholeBlock run) (fractionBlock run) := by
  have hall : ∀ c ∈ collapseDots run, isNumberChar c = true :=
    fun c hc => h c (mem_of_mem_collapseDots hc)
  have hbehind : ∀ c ∈ behindDots run, isNumberChar c = true :=
    fun c hc => h c ((behindDots_suffix run).subset hc)
  have hhead := List.head?_dropWhile_not (· != '.') run
  unfold leadingDecimal Decimal.ofBlocks
  simp only [takeWhile_isDigit hall, takeWhile_collapseDots, dropWhile_isDigit hall,
    dropWhile_collapseDots, wholeBlock, fractionBlock]
  cases hrest : run.dropWhile (· != '.') with
  | nil => simp [behindDots, hrest, collapseDots]
  | cons c rest =>
      rw [hrest] at hhead
      -- What is left behind the first digits starts with a dot, and the dots after that one go.
      obtain rfl : c = '.' := by simpa using hhead
      have heq : behindDots run = rest.dropWhile (· == '.') := by
        rw [behindDots, hrest, List.dropWhile_cons_of_pos (by decide)]
      rw [heq] at hbehind
      have hfraction : (collapseDots (rest.dropWhile (· == '.'))).takeWhile Char.isDigit
          = (rest.dropWhile (· == '.')).takeWhile (· != '.') := by
        rw [takeWhile_isDigit fun c hc => hbehind c (mem_of_mem_collapseDots hc),
          takeWhile_collapseDots]
      rw [heq, collapseDots_dot]
      simp only [hfraction]

theorem numberValue_eq {run : List Char} (h : ∀ c ∈ run, isNumberChar c = true) :
    numberValue run = (Decimal.ofBlocks (wholeBlock run) (fractionBlock run)).toScalar :=
  congrArg Decimal.toScalar (leadingDecimal_collapseDots h)

theorem digitsValue_concat (digits : List Char) (c : Char) :
    digitsValue (digits ++ [c]) = 10 * digitsValue digits + digitValue c := by
  rw [digitsValue, List.foldl_append]
  rfl

/-- Digits in front are worth a power of ten more. -/
theorem digitsValue_append (whole fraction : List Char) :
    digitsValue (whole ++ fraction)
      = digitsValue whole * 10 ^ fraction.length + digitsValue fraction := by
  induction fraction using List.reverseRecOn with
  | nil => simp [digitsValue]
  | append_singleton fraction c ih =>
      rw [← List.append_assoc, digitsValue_concat, ih, digitsValue_concat, List.length_append,
        List.length_singleton, Nat.pow_succ]
      ring

/-- The digits before the point are worth their number, and so many digits behind it a
    fraction of that power of ten. -/
theorem Decimal.value_ofBlocks (whole fraction : List Char) :
    (ofBlocks whole fraction).value
      = digitsValue whole + digitsValue fraction / 10 ^ fraction.length := by
  have hpow : (10 : ℚ) ^ fraction.length ≠ 0 := pow_ne_zero _ (by norm_num)
  rw [value, ofBlocks, digitsValue_append]
  simp only [Int.ofNat_eq_natCast, zpow_neg, zpow_natCast]
  push_cast
  field_simp

theorem Decimal.toScalar_ofBlocks_of_empty {whole fraction : List Char}
    (h : whole ++ fraction = []) : (ofBlocks whole fraction).toScalar = 0.0 := by
  unfold ofBlocks
  rw [h]
  rfl

namespace Scalar

/-- Digits with a point among them are read as the decimal they spell, and a point alone
    is not read. -/
theorem readMagnitude?_blocks {whole fraction : List Char}
    (hwhole : ∀ c ∈ whole, c.isDigit = true) (hfraction : ∀ c ∈ fraction, c.isDigit = true) :
    readMagnitude? (whole ++ '.' :: fraction)
      = if whole ++ fraction = [] then none
        else some (Decimal.ofBlocks whole fraction).toScalar := by
  have htake : (whole ++ '.' :: fraction).takeWhile Char.isDigit = whole := by
    rw [List.takeWhile_append_of_pos hwhole, List.takeWhile_cons_of_neg (by decide),
      List.append_nil]
  have hdrop : (whole ++ '.' :: fraction).dropWhile Char.isDigit = '.' :: fraction := by
    rw [List.dropWhile_append_of_pos hwhole, List.dropWhile_cons_of_neg (by decide)]
  have hfit : fraction.takeWhile Char.isDigit = fraction :=
    List.takeWhile_eq_self_iff.mpr hfraction
  have hend : fraction.dropWhile Char.isDigit = [] := List.dropWhile_eq_nil_iff.mpr hfraction
  simp only [readMagnitude?, htake, hdrop, hfit, hend, readExponent?, Option.map_some, zero_sub]
  simp [Decimal.ofBlocks]

/-- No name of a number has a dot in it. -/
theorem readUnsigned?_of_dot {s : List Char} (h : '.' ∈ s) :
    readUnsigned? s = readMagnitude? s := by
  have hdot : '.' ∈ s.map Char.toLower := List.mem_map.mpr ⟨'.', h, by decide⟩
  have hname : ∀ name : String, '.' ∉ name.toList → String.ofList (s.map Char.toLower) ≠ name := by
    rintro name hnot rfl
    rw [String.toList_ofList] at hnot
    exact hnot hdot
  rw [readUnsigned?, if_neg, if_neg (hname "nan" (by decide))]
  exact not_or.mpr ⟨hname "inf" (by decide), hname "infinity" (by decide)⟩

theorem read?_blocks {whole fraction : List Char}
    (hwhole : ∀ c ∈ whole, c.isDigit = true) (hfraction : ∀ c ∈ fraction, c.isDigit = true) :
    read? (String.ofList (whole ++ '.' :: fraction))
      = if whole ++ fraction = [] then none
        else some (Decimal.ofBlocks whole fraction).toScalar := by
  have hdot : '.' ∈ whole ++ '.' :: fraction := by simp
  rw [← readMagnitude?_blocks hwhole hfraction, ← readUnsigned?_of_dot hdot, read?,
    String.toList_ofList]
  -- There is no sign in front of a digit or a dot.
  cases whole with
  | nil => rfl
  | cons c whole =>
      have hc := hwhole c List.mem_cons_self
      have hminus : c ≠ '-' := by rintro rfl; exact absurd hc (by decide)
      have hplus : c ≠ '+' := by rintro rfl; exact absurd hc (by decide)
      split
      next heq => exact absurd (List.cons.inj heq).1 hminus
      next heq => exact absurd (List.cons.inj heq).1 hplus
      next => rfl

end Scalar

section Runs

variable {text : List Char} {c : Char}

theorem drop_length_takeWhile (p : Char → Bool) (text : List Char) :
    text.drop (text.takeWhile p).length = text.dropWhile p := by
  calc
    text.drop (text.takeWhile p).length
        = (text.takeWhile p ++ text.dropWhile p).drop (text.takeWhile p).length := by
          rw [List.takeWhile_append_dropWhile]
    _ = text.dropWhile p := List.drop_left

/-- The run at the start of a text goes on as far as there are digits and dots. -/
theorem run_is_maximal (hc : text.head? = some c) (hnumber : isNumberChar c = true) :
    text.takeWhile isNumberChar ≠ [] ∧
      (∀ d ∈ text.takeWhile isNumberChar, d.isDigit = true ∨ d = '.') ∧
      ∀ d ∈ (text.dropWhile isNumberChar).head?, ¬(d.isDigit = true ∨ d = '.') := by
  refine ⟨?_, fun d hd => (isNumberChar_iff d).mp (List.mem_takeWhile_imp hd), fun d hd hd' => ?_⟩
  · obtain ⟨rest, rfl⟩ := List.head?_eq_some_iff.mp hc
    rw [List.takeWhile_cons_of_pos hnumber]
    exact List.cons_ne_nil c _
  · have hstop := List.head?_dropWhile_not isNumberChar text
    rw [Option.mem_def.mp hd] at hstop
    exact absurd ((isNumberChar_iff d).mpr hd') (Bool.eq_false_iff.mp hstop)

/-- A run is read to its end, whatever it looks like. -/
theorem firstToken_of_isNumberChar (hc : text.head? = some c) (hnumber : isNumberChar c = true) :
    firstToken text = ⟨some (.number (numberValue (text.takeWhile isNumberChar))), [],
      text.dropWhile isNumberChar⟩ := by
  obtain ⟨rest, rfl⟩ := List.head?_eq_some_iff.mp hc
  have hblank : ¬isBlank c = true := by
    intro hblank
    simp only [isBlank, Bool.or_eq_true, beq_iff_eq] at hblank
    rcases hblank with (((rfl | rfl) | rfl) | rfl) | rfl <;> exact absurd hnumber (by decide)
  rw [firstToken, if_neg hblank, if_pos hnumber,
    List.takeWhile_cons_of_pos hnumber, List.dropWhile_cons_of_pos hnumber]

end Runs

/-- A digit or a dot starts a number, and all digits and dots that follow belong to it,
    and no character after them. Its value is that of its two blocks with a point between
    them. -/
theorem scan_number_run (text : List Char) (pos : Nat) (c : Char) (hc : text[pos]? = some c)
    (hnumber : c.isDigit = true ∨ c = '.') :
    let run := (text.drop pos).takeWhile isNumberChar
    let behind := text.drop (pos + run.length)
    let whole := wholeBlock run
    let fraction := fractionBlock run
    let number := (Decimal.ofBlocks whole fraction).toScalar
    -- The run goes on as far as it can, and is read as one number.
    (run ≠ [] ∧ (∀ d ∈ run, d.isDigit = true ∨ d = '.') ∧
      ∀ d ∈ behind.head?, ¬(d.isDigit = true ∨ d = '.')) ∧
    firstToken (text.drop pos) = ⟨some (.number number), [], behind⟩ ∧
    scan (text.drop pos) = (scan behind).withToken (.number number) ∧
    -- Where the blocks are.
    (∃ dots ignored, run = whole ++ dots ++ fraction ++ ignored ∧
      (∀ d ∈ whole ++ fraction, d.isDigit = true) ∧ (∀ d ∈ dots, d = '.') ∧
      (∀ d ∈ ignored.head?, d = '.') ∧ (dots = [] → fraction = []) ∧
      (fraction = [] → ignored = [])) ∧
    -- What they are worth.
    (Decimal.ofBlocks whole fraction).value
      = digitsValue whole + digitsValue fraction / 10 ^ fraction.length ∧
    Scalar.read? (String.ofList (whole ++ '.' :: fraction))
      = (if whole ++ fraction = [] then none else some number) ∧
    (whole ++ fraction = [] → number = 0.0) := by
  intro run behind whole fraction number
  have hchar : isNumberChar c = true := (isNumberChar_iff c).mpr hnumber
  have hhead : (text.drop pos).head? = some c := by rw [List.head?_drop, hc]
  have hrun : ∀ d ∈ run, isNumberChar d = true := fun d hd => List.mem_takeWhile_imp hd
  have hbehind : behind = (text.drop pos).dropWhile isNumberChar := by
    rw [← drop_length_takeWhile, List.drop_drop]
  have hfirst : firstToken (text.drop pos) = ⟨some (.number number), [], behind⟩ := by
    rw [firstToken_of_isNumberChar hhead hchar, numberValue_eq hrun, hbehind]
  rcases isDigit_of_mem_blocks hrun with ⟨hwhole, hfraction⟩
  refine ⟨hbehind ▸ run_is_maximal hhead hchar, hfirst, ?_, ?_,
    Decimal.value_ofBlocks whole fraction, Scalar.read?_blocks hwhole hfraction,
    Decimal.toScalar_ofBlocks_of_empty⟩
  · rw [scan_eq_firstToken, hfirst]
    rfl
  · rcases exists_eq_blocks run with ⟨dots, ignored, heq, hdots, hignored, hnone⟩
    exact ⟨dots, ignored, heq, List.forall_mem_append.mpr ⟨hwhole, hfraction⟩, hdots, hignored,
      hnone⟩

/-- Three dots are one point, and the dots behind the next digit end the number. The digit
    after these is read with it. -/
theorem scan_number_run_dots :
    let text := "$A+1...2..3+4".toList
    text[3]? = some '1' ∧ Char.isDigit '1' = true ∧
      wholeBlock "1...2..3".toList = ['1'] ∧ fractionBlock "1...2..3".toList = ['2'] ∧
      firstToken (text.drop 3) = ⟨some (.number 1.2), [], "+4".toList⟩ ∧
      (Decimal.ofBlocks ['1'] ['2']).value = 1 + 2 / 10 := by
  intro text
  have hrun : (text.drop 3).takeWhile isNumberChar = "1...2..3".toList := by decide
  have hwhole : wholeBlock "1...2..3".toList = ['1'] := by decide
  have hfraction : fractionBlock "1...2..3".toList = ['2'] := by decide
  have hnumber : (Decimal.ofBlocks ['1'] ['2']).toScalar = 1.2 := by decide +kernel
  have h := scan_number_run text 3 '1' (by decide) (.inl (by decide))
  simp only [hrun, hwhole, hfraction, hnumber] at h
  rcases h with ⟨-, hfirst, -, -, hvalue, -⟩
  exact ⟨by decide, by decide, hwhole, hfraction, hfirst,
    by simpa [digitsValue, digitValue] using hvalue⟩

end TurtleGraphics
