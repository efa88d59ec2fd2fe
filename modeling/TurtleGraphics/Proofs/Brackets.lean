import TurtleGraphics.Program.Enclosed

/-!
# Reading Through Brackets

When text between brackets is read, inner brackets are counted. Balanced text leaves
the count as it was, so reading goes through it and the bracket that closes is the
first one behind it.

What is balanced is said by counting alone: wherever a closing bracket stands, more
have been opened before it than closed, and in the end as many of the one as of the
other. The readers keep a depth instead. The two agree step by step (`Covered.tail`),
and the step is the same for every character that has to stand inside brackets, be it
a closing bracket or a comma.

Text that is read through need not be seen as a whole. `Passes` says of a text that
reading goes through it at every depth, and this is kept when texts are put one behind
another or into brackets.

## Main definitions

* `Covered`: A character stands inside brackets wherever it stands.
* `Balanced`: Each bracket that is closed was opened, and each that is opened is closed.
* `Delimiter.level`: How many brackets are open after a character.
* `Delimiter.brackets`: The brackets of a text.
* `Passes`: Reading goes through a text.

## Theorems

* `Covered.cons_iff`: Covered text, character by character.
* `Covered.foldl_level`: The depth after a text, by what is counted in it.
* `exists_of_not_covered`: The first bracket that closes too much.
* `balanced_brackets_iff`: Whether a text is balanced depends on its brackets only.
* `Enclosed.readFrom_of_covered`: Reading goes through covered text.
* `Passes.of_balanced`: Reading goes through balanced text.
* `Passes.enclosed`: And through text that is put into brackets.
* `Passes.read_eq`: Then the text ends where the bracket is closed.
-/

namespace TurtleGraphics

/-- Wherever `ch` stands in a text, a bracket is open there. There are `depth` open ones
    before the text. -/
def Covered (d : Delimiter) (depth : Nat) (ch : Char) (text : List Char) : Prop :=
  ∀ n < text.length, text[n]? = some ch →
    (text.take n).count d.closing < depth + (text.take n).count d.opening

/-- Each bracket that is closed was opened before, and each that is opened is closed. -/
def Balanced (d : Delimiter) (text : List Char) : Prop :=
  Covered d 0 d.closing text ∧ text.count d.opening = text.count d.closing

instance (d : Delimiter) (depth : Nat) (ch : Char) (text : List Char) :
    Decidable (Covered d depth ch text) :=
  Nat.decidableBallLT text.length _

instance (d : Delimiter) (text : List Char) : Decidable (Balanced d text) :=
  instDecidableAnd

/-- How many brackets are open after a character. -/
def Delimiter.level (d : Delimiter) (depth : Nat) (c : Char) : Nat :=
  if c = d.closing then depth - 1 else if c = d.opening then depth + 1 else depth

theorem Delimiter.opening_ne_closing (d : Delimiter) : d.opening ≠ d.closing := by
  cases d <;> decide

namespace Covered

variable {d : Delimiter} {depth : Nat} {ch c : Char} {text : List Char}

theorem mono {more : Nat} (h : Covered d depth ch text) (hle : depth ≤ more) :
    Covered d more ch text := by
  intro n hn hget
  have hcount := h n hn hget
  omega

theorem head (h : Covered d depth ch (ch :: text)) : 0 < depth := by
  have hcount := h 0 (Nat.zero_lt_succ _) rfl
  simpa using hcount

theorem tail (h : Covered d depth ch (c :: text)) : Covered d (d.level depth c) ch text := by
  intro n hn hget
  -- One place further in the longer text, where `c` is counted as well.
  have hcount := h (n + 1) (Nat.succ_lt_succ hn) hget
  rw [List.take_succ_cons] at hcount
  by_cases hclosing : c = d.closing
  · have hopening : c ≠ d.opening := fun heq => d.opening_ne_closing (heq.symm.trans hclosing)
    rw [List.count_cons_of_ne hopening, hclosing, List.count_cons_self] at hcount
    rw [Delimiter.level, if_pos hclosing]
    omega
  · rw [List.count_cons_of_ne hclosing] at hcount
    by_cases hopening : c = d.opening
    · rw [hopening, List.count_cons_self] at hcount
      rw [Delimiter.level, if_neg hclosing, if_pos hopening]
      omega
    · rw [List.count_cons_of_ne hopening] at hcount
      rw [Delimiter.level, if_neg hclosing, if_neg hopening]
      exact hcount

/-- Character by character: a closing bracket needs one that is open. -/
theorem cons_iff : Covered d depth d.closing (c :: text) ↔
    (c = d.closing → 0 < depth) ∧ Covered d (d.level depth c) d.closing text := by
  refine ⟨fun h => ⟨fun hc => (hc ▸ h).head, h.tail⟩, ?_⟩
  rintro ⟨hpos, h⟩ n hn hget
  cases n with
  | zero =>
      have hc : c = d.closing := Option.some.inj hget
      simpa using hpos hc
  | succ n =>
      have hcount := h n (Nat.lt_of_succ_lt_succ hn) hget
      rw [List.take_succ_cons]
      by_cases hclosing : c = d.closing
      · have hdepth := hpos hclosing
        rw [Delimiter.level, if_pos hclosing] at hcount
        rw [hclosing, List.count_cons_self, List.count_cons_of_ne d.opening_ne_closing.symm]
        omega
      · rw [Delimiter.level, if_neg hclosing] at hcount
        rw [List.count_cons_of_ne hclosing]
        by_cases hopening : c = d.opening
        · rw [if_pos hopening] at hcount
          rw [hopening, List.count_cons_self]
          omega
        · rw [if_neg hopening] at hcount
          rw [List.count_cons_of_ne hopening]
          exact hcount

theorem append (hs : Covered d depth d.closing text) {more : List Char}
    (ht : Covered d (text.foldl d.level depth) d.closing more) :
    Covered d depth d.closing (text ++ more) := by
  induction text generalizing depth with
  | nil => exact ht
  | cons c text ih =>
      rcases cons_iff.mp hs with ⟨hpos, hrest⟩
      exact cons_iff.mpr ⟨hpos, ih hrest ht⟩

/-- The brackets that are open after a text, by what is counted in it. -/
theorem foldl_level (h : Covered d depth d.closing text) :
    text.foldl d.level depth + text.count d.closing = depth + text.count d.opening := by
  induction text generalizing depth with
  | nil => rfl
  | cons c text ih =>
      have hrest := ih h.tail
      rw [List.foldl_cons]
      by_cases hclosing : c = d.closing
      · subst hclosing
        -- The subtraction in `level` is a real one: a bracket was open.
        have hpos := h.head
        rw [List.count_cons_self, List.count_cons_of_ne d.opening_ne_closing.symm]
        rw [Delimiter.level, if_pos rfl] at hrest ⊢
        omega
      · rw [List.count_cons_of_ne hclosing]
        by_cases hopening : c = d.opening
        · rw [Delimiter.level, if_neg hclosing, if_pos hopening] at hrest ⊢
          rw [hopening, List.count_cons_self]
          omega
        · rw [Delimiter.level, if_neg hclosing, if_neg hopening] at hrest ⊢
          rw [List.count_cons_of_ne hopening]
          exact hrest

end Covered

/-- If some bracket closes too much there is a first one that does: what comes before it is
    covered and leaves no bracket open. -/
theorem exists_of_not_covered {d : Delimiter} {depth : Nat} {text : List Char}
    (h : ¬ Covered d depth d.closing text) :
    ∃ before after, text = before ++ d.closing :: after ∧
      Covered d depth d.closing before ∧ before.foldl d.level depth = 0 := by
  induction text generalizing depth with
  | nil => exact absurd nofun h
  | cons c text ih =>
      by_cases hhere : c = d.closing ∧ depth = 0
      · rcases hhere with ⟨rfl, rfl⟩
        exact ⟨[], text, rfl, nofun, rfl⟩
      · have hpos : c = d.closing → 0 < depth := by
          intro hc
          exact Nat.pos_of_ne_zero fun hzero => hhere ⟨hc, hzero⟩
        have hrest : ¬ Covered d (d.level depth c) d.closing text := by
          intro hcovered
          exact h (Covered.cons_iff.mpr ⟨hpos, hcovered⟩)
        rcases ih hrest with ⟨before, after, rfl, hbefore, hlevel⟩
        exact ⟨c :: before, after, rfl, Covered.cons_iff.mpr ⟨hpos, hbefore⟩, hlevel⟩

/-- Balanced text leaves as many brackets open as were open before it. -/
theorem Balanced.foldl_level {d : Delimiter} {text : List Char} (h : Balanced d text)
    (depth : Nat) : text.foldl d.level depth = depth := by
  have hcount := (h.1.mono (Nat.zero_le depth)).foldl_level
  have heq := h.2
  omega

/-- The brackets of a text in their order. -/
def Delimiter.brackets (d : Delimiter) (text : List Char) : List Char :=
  text.filter fun c => c == d.opening || c == d.closing

theorem Delimiter.brackets_append (d : Delimiter) (s t : List Char) :
    d.brackets (s ++ t) = d.brackets s ++ d.brackets t :=
  List.filter_append s t

theorem Delimiter.brackets_eq_nil {d : Delimiter} {text : List Char} (hopening : d.opening ∉ text)
    (hclosing : d.closing ∉ text) : d.brackets text = [] := by
  refine List.filter_eq_nil_iff.mpr fun c hc => ?_
  simp only [Bool.or_eq_true, beq_iff_eq, not_or]
  exact ⟨fun heq => hopening (heq ▸ hc), fun heq => hclosing (heq ▸ hc)⟩

/-- Whether a text is covered depends on its brackets only. -/
theorem covered_brackets_iff {d : Delimiter} (depth : Nat) (text : List Char) :
    Covered d depth d.closing (d.brackets text) ↔ Covered d depth d.closing text := by
  induction text generalizing depth with
  | nil => exact Iff.rfl
  | cons c text ih =>
      unfold Delimiter.brackets at ih ⊢
      rw [List.filter_cons, Covered.cons_iff]
      split
      next =>
        rw [Covered.cons_iff]
        exact and_congr_right fun _ => ih _
      next hother =>
        simp only [Bool.or_eq_true, beq_iff_eq, not_or] at hother
        rw [ih, Delimiter.level, if_neg hother.2, if_neg hother.1]
        exact ⟨fun h => ⟨fun hc => absurd hc hother.2, h⟩, And.right⟩

/-- And so does whether it is balanced. -/
theorem balanced_brackets_iff {d : Delimiter} (text : List Char) :
    Balanced d (d.brackets text) ↔ Balanced d text := by
  have hopening : (d.brackets text).count d.opening = text.count d.opening :=
    List.count_filter (by simp)
  have hclosing : (d.brackets text).count d.closing = text.count d.closing :=
    List.count_filter (by simp)
  rw [Balanced, covered_brackets_iff, hopening, hclosing, Balanced]

/-- Reading between brackets goes through a text and is as deep inside as before. -/
def Passes (d : Delimiter) (stops : Char → Bool) (text : List Char) : Prop :=
  ∀ (depth : Nat) (taken rest : List Char),
    Enclosed.readFrom d stops depth taken (text ++ rest) =
      Enclosed.readFrom d stops depth (text.reverse ++ taken) rest

theorem Enclosed.readFrom_cons {d : Delimiter} {stops : Char → Bool} {depth : Nat} {c : Char}
    (hstops : stops c = false) (hclosing : c = d.closing → 0 < depth) (taken rest : List Char) :
    readFrom d stops depth taken (c :: rest) =
      readFrom d stops (d.level depth c) (c :: taken) rest := by
  rw [readFrom.eq_def, Delimiter.level]
  simp only [hstops]
  by_cases hc : c = d.closing
  · simp only [if_pos hc]
    cases depth with
    | zero => exact absurd (hclosing hc) (Nat.lt_irrefl 0)
    | succ depth => rfl
  · simp only [if_neg hc]
    rfl

/-- Reading goes through a text without a bracket that closes too much. The depth after it
    is what `level` gives. -/
theorem Enclosed.readFrom_of_covered {d : Delimiter} {stops : Char → Bool} {depth : Nat}
    {text : List Char} (taken rest : List Char) (h : Covered d depth d.closing text)
    (hstops : ∀ c ∈ text, stops c = false) :
    readFrom d stops depth taken (text ++ rest) =
      readFrom d stops (text.foldl d.level depth) (text.reverse ++ taken) rest := by
  induction text generalizing depth taken with
  | nil => rfl
  | cons c text ih =>
      rcases List.forall_mem_cons.mp hstops with ⟨hc, htext⟩
      rcases Covered.cons_iff.mp h with ⟨hpos, hcovered⟩
      rw [List.cons_append, readFrom_cons hc hpos, ih _ hcovered htext]
      rw [List.foldl_cons, List.reverse_cons, List.append_assoc, List.singleton_append]

namespace Passes

variable {d : Delimiter} {stops : Char → Bool} {s t : List Char}

theorem nil : Passes d stops [] := fun _ _ _ => rfl

theorem append (hs : Passes d stops s) (ht : Passes d stops t) : Passes d stops (s ++ t) := by
  intro depth taken rest
  rw [List.append_assoc, hs, ht, List.reverse_append, List.append_assoc]

theorem singleton {c : Char} (hstops : stops c = false) (hopening : c ≠ d.opening)
    (hclosing : c ≠ d.closing) : Passes d stops [c] := by
  intro depth taken rest
  rw [List.singleton_append, Enclosed.readFrom_cons hstops fun h => absurd h hclosing,
    Delimiter.level, if_neg hclosing, if_neg hopening]
  rfl

theorem of_forall (h : ∀ c ∈ s, stops c = false ∧ c ≠ d.opening ∧ c ≠ d.closing) :
    Passes d stops s := by
  induction s with
  | nil => exact nil
  | cons c s ih =>
      have hc := h c List.mem_cons_self
      have hs := ih fun ch hch => h ch (List.mem_cons_of_mem c hch)
      exact (singleton hc.1 hc.2.1 hc.2.2).append hs

/-- One more bracket that is opened and closed. -/
theorem enclosed (hs : Passes d stops s) (hopening : stops d.opening = false)
    (hclosing : stops d.closing = false) :
    Passes d stops (d.opening :: (s ++ [d.closing])) := by
  intro depth taken rest
  rw [List.cons_append, List.append_assoc,
    Enclosed.readFrom_cons hopening fun h => absurd h d.opening_ne_closing, hs,
    List.singleton_append]
  have hlevel : d.level depth d.opening = depth + 1 := by
    rw [Delimiter.level, if_neg d.opening_ne_closing, if_pos rfl]
  rw [hlevel, Enclosed.readFrom_cons hclosing fun _ => Nat.zero_lt_succ depth]
  have hlevel' : d.level (depth + 1) d.closing = depth := by
    rw [Delimiter.level, if_pos rfl]
    rfl
  rw [hlevel']
  simp only [List.reverse_cons, List.reverse_append, List.reverse_nil, List.nil_append,
    List.cons_append, List.append_assoc]

theorem of_balanced (h : Balanced d s) (hstops : ∀ c ∈ s, stops c = false) :
    Passes d stops s := by
  intro depth taken rest
  rw [Enclosed.readFrom_of_covered taken rest (h.1.mono (Nat.zero_le depth)) hstops,
    h.foldl_level]

/-- Text that is passed through is what stands before the closing bracket. -/
theorem read_eq (hs : Passes d stops s) (hclosing : stops d.closing = false)
    (rest : List Char) :
    Enclosed.read d stops (s ++ d.closing :: rest) = ⟨s, true, rest⟩ := by
  rw [Enclosed.read, hs, Enclosed.readFrom, if_neg (by rw [hclosing]; exact Bool.false_ne_true),
    if_pos rfl]
  simp only [List.append_nil, List.reverse_reverse]

end Passes

end TurtleGraphics
