import Mathlib.Data.List.Basic

/-!
# Brackets and Their Partners

Two brackets are partners if what stands between them has all its brackets paired among
themselves. That is the same as to go from left to right and to match each closing bracket
with the nearest opening one before it that has not been matched yet. A bracket without a
partner is *unclosed* or *unopened*, and this module says how to find out by counting.

The count goes up at an opening bracket and down at a closing one, but not below zero. It is
positive at the end exactly if some bracket is unclosed (`Brackets.unclosed_iff`), and a
closing bracket that is met at zero is unopened (`Brackets.unopened_iff`). Items of any kind
can be brackets, so that texts and tokens share all of this.

## Main definitions

* `Brackets`: What the two brackets are.
* `Brackets.Paired`: Every bracket has its partner.
* `Brackets.Closes`, `Brackets.Opens`: A partner for a bracket at the start, or at the end.
* `Brackets.Unclosed`, `Brackets.Unopened`: Some bracket has no partner.
* `Brackets.level`, `Brackets.sinks`: Counting the brackets that are open.

## Theorems

* `Brackets.Paired.foldl_level`: Pairs do not change the count.
* `Brackets.le_foldl_level`: The count goes below its start only at a partner.
* `Brackets.foldl_level_le`: The count ends above its start only at an unclosed bracket.
* `Brackets.unclosed_iff`, `Brackets.unopened_iff`: Finding brackets without a partner.
-/

namespace TurtleGraphics

/-- An opening and a closing bracket. -/
structure Brackets (α : Type) where
  opening : α
  closing : α
  opening_ne_closing : opening ≠ closing

/-- Round brackets in a text. -/
def Brackets.round : Brackets Char := ⟨'(', ')', by decide⟩

namespace Brackets

variable {α : Type} (b : Brackets α)

/-- Every bracket has its partner. -/
inductive Paired : List α → Prop where
  | nil : Paired []
  | other {a : α} {items : List α} (hopening : a ≠ b.opening) (hclosing : a ≠ b.closing)
      (h : Paired items) : Paired (a :: items)
  | pair {inner items : List α} (hinner : Paired inner) (h : Paired items) :
      Paired (b.opening :: (inner ++ b.closing :: items))

/-- There is a partner for an opening bracket that stands directly before the items. -/
def Closes (items : List α) : Prop :=
  ∃ inner rest, items = inner ++ b.closing :: rest ∧ b.Paired inner

/-- There is a partner for a closing bracket that stands directly behind the items. -/
def Opens (items : List α) : Prop :=
  ∃ start inner, items = start ++ b.opening :: inner ∧ b.Paired inner

/-- Some opening bracket has no partner. -/
def Unclosed (items : List α) : Prop :=
  ∃ before after, items = before ++ b.opening :: after ∧ ¬ b.Closes after

/-- Some closing bracket has no partner. -/
def Unopened (items : List α) : Prop :=
  ∃ before after, items = before ++ b.closing :: after ∧ ¬ b.Opens before

section

variable {b} {a : α} {items : List α}

theorem Paired.append {more : List α} (h : b.Paired items) (hmore : b.Paired more) :
    b.Paired (items ++ more) := by
  induction h with
  | nil => exact hmore
  | other hopening hclosing _ ih => exact .other hopening hclosing ih
  | pair hinner _ _ ih =>
      rw [List.cons_append, List.append_assoc, List.cons_append]
      exact .pair hinner ih

theorem Closes.other (hopening : a ≠ b.opening) (hclosing : a ≠ b.closing)
    (h : b.Closes items) : b.Closes (a :: items) := by
  rcases h with ⟨inner, rest, rfl, hinner⟩
  exact ⟨a :: inner, rest, rfl, .other hopening hclosing hinner⟩

theorem Closes.pair {inner : List α} (hinner : b.Paired inner) (h : b.Closes items) :
    b.Closes (b.opening :: (inner ++ b.closing :: items)) := by
  rcases h with ⟨inner', rest, rfl, hinner'⟩
  exact ⟨b.opening :: (inner ++ b.closing :: inner'), rest, by simp, .pair hinner hinner'⟩

theorem Unclosed.append_left (h : b.Unclosed items) (before : List α) :
    b.Unclosed (before ++ items) := by
  rcases h with ⟨start, after, rfl, hafter⟩
  exact ⟨before ++ start, after, by rw [List.append_assoc], hafter⟩

theorem Unclosed.cons (h : b.Unclosed items) (a : α) : b.Unclosed (a :: items) :=
  h.append_left [a]

end

variable [DecidableEq α]

/-- How many brackets are open after an item. -/
def level (depth : Nat) (a : α) : Nat :=
  if a = b.closing then depth - 1 else if a = b.opening then depth + 1 else depth

@[simp]
theorem level_closing (depth : Nat) : b.level depth b.closing = depth - 1 := if_pos rfl

@[simp]
theorem level_opening (depth : Nat) : b.level depth b.opening = depth + 1 := by
  rw [level, if_neg b.opening_ne_closing, if_pos rfl]

variable {b} {a : α} {items : List α}

theorem level_other (hopening : a ≠ b.opening) (hclosing : a ≠ b.closing) (depth : Nat) :
    b.level depth a = depth := by
  rw [level, if_neg hclosing, if_neg hopening]

/-- Pairs leave the count as it was. -/
theorem Paired.foldl_level (h : b.Paired items) (depth : Nat) :
    items.foldl b.level depth = depth := by
  induction h generalizing depth with
  | nil => rfl
  | other hopening hclosing _ ih =>
      rw [List.foldl_cons, level_other hopening hclosing, ih]
  | pair _ _ ihinner ih =>
      rw [List.foldl_cons, List.foldl_append, List.foldl_cons, level_opening, ihinner,
        level_closing, Nat.add_sub_cancel, ih]

theorem Paired.foldl_level_pair {inner : List α} (h : b.Paired inner) (items : List α)
    (depth : Nat) :
    (b.opening :: (inner ++ b.closing :: items)).foldl b.level depth
      = items.foldl b.level depth := by
  rw [List.foldl_cons, List.foldl_append, List.foldl_cons, level_opening, h.foldl_level,
    level_closing, Nat.add_sub_cancel]

/-- The count goes below its start only at a partner for a bracket before it. -/
theorem le_foldl_level (h : ¬ b.Closes items) (depth : Nat) :
    depth ≤ items.foldl b.level depth := by
  -- Pairs are left out as a whole, so the induction is on the length.
  induction hn : items.length using Nat.strongRecOn generalizing items depth with
  | ind n ih =>
    cases items with
    | nil => exact Nat.le_refl depth
    | cons a rest =>
        rw [List.length_cons] at hn
        by_cases hclosing : a = b.closing
        · exact absurd ⟨[], rest, by rw [hclosing]; rfl, .nil⟩ h
        by_cases hopening : a = b.opening
        · subst hopening
          by_cases hrest : b.Closes rest
          · rcases hrest with ⟨inner, rest, rfl, hinner⟩
            rw [hinner.foldl_level_pair]
            rw [List.length_append, List.length_cons] at hn
            exact ih rest.length (by omega) (fun hc => h (hc.pair hinner)) depth rfl
          · have hle := ih rest.length (by omega) hrest (depth + 1) rfl
            rw [List.foldl_cons, level_opening]
            omega
        · rw [List.foldl_cons, level_other hopening hclosing]
          exact ih rest.length (by omega) (fun hc => h (hc.other hopening hclosing)) depth rfl

/-- The count ends above its start only if a bracket is unclosed. -/
theorem foldl_level_le (h : ¬ b.Unclosed items) (depth : Nat) :
    items.foldl b.level depth ≤ depth := by
  induction hn : items.length using Nat.strongRecOn generalizing items depth with
  | ind n ih =>
    cases items with
    | nil => exact Nat.le_refl depth
    | cons a rest =>
        rw [List.length_cons] at hn
        have hrest : ¬ b.Unclosed rest := fun hc => h (hc.cons a)
        by_cases hopening : a = b.opening
        · subst hopening
          by_cases hcloses : b.Closes rest
          · rcases hcloses with ⟨inner, rest, rfl, hinner⟩
            rw [hinner.foldl_level_pair]
            rw [List.length_append, List.length_cons] at hn
            have hafter : ¬ b.Unclosed rest := by
              intro hc
              exact hrest ((hc.cons b.closing).append_left inner)
            exact ih rest.length (by omega) hafter depth rfl
          · exact absurd ⟨[], rest, rfl, hcloses⟩ h
        · have hle := ih rest.length (by omega) hrest (b.level depth a) rfl
          have hlevel : b.level depth a ≤ depth := by
            by_cases hclosing : a = b.closing
            · rw [hclosing, level_closing]
              omega
            · exact Nat.le_of_eq (level_other hopening hclosing depth)
          exact Nat.le_trans hle hlevel

/-- Some bracket is unclosed exactly if the count is positive at the end. -/
theorem unclosed_iff : b.Unclosed items ↔ 0 < items.foldl b.level 0 := by
  constructor
  · rintro ⟨before, after, rfl, hafter⟩
    rw [List.foldl_append, List.foldl_cons, level_opening]
    have hle := le_foldl_level hafter (before.foldl b.level 0 + 1)
    omega
  · intro hpos
    by_contra hclosed
    have hle := foldl_level_le hclosed 0
    omega

/-- A closing bracket behind the items has a partner exactly if the count is positive. -/
theorem opens_iff : b.Opens items ↔ 0 < items.foldl b.level 0 := by
  constructor
  · rintro ⟨start, inner, rfl, hinner⟩
    rw [List.foldl_append, List.foldl_cons, level_opening, hinner.foldl_level]
    omega
  · intro hpos
    induction hn : items.length using Nat.strongRecOn generalizing items with
    | ind n ih =>
      rcases List.eq_nil_or_concat' items with rfl | ⟨init, a, rfl⟩
      · exact absurd hpos (Nat.lt_irrefl 0)
      rw [List.length_append, List.length_singleton] at hn
      rw [List.foldl_append, List.foldl_cons, List.foldl_nil] at hpos
      by_cases hopening : a = b.opening
      · exact ⟨init, [], by rw [hopening], .nil⟩
      by_cases hclosing : a = b.closing
      · -- The last bracket has a partner, and before that one there is another open bracket.
        subst hclosing
        rw [level_closing] at hpos
        rcases ih init.length (by omega) (by omega) rfl with ⟨start, inner, rfl, hinner⟩
        rw [List.foldl_append, List.foldl_cons, level_opening, hinner.foldl_level] at hpos
        rw [List.length_append, List.length_cons] at hn
        rcases ih start.length (by omega) (by omega) rfl with ⟨start, inner', rfl, hinner'⟩
        exact ⟨start, inner' ++ b.opening :: (inner ++ b.closing :: []), by simp,
          hinner'.append (.pair hinner .nil)⟩
      · rw [level_other hopening hclosing] at hpos
        rcases ih init.length (by omega) hpos rfl with ⟨start, inner, rfl, hinner⟩
        exact ⟨start, inner ++ [a], by simp,
          hinner.append (.other hopening hclosing .nil)⟩

variable (b) in
/-- Whether a closing bracket comes where none is open. There are `depth` open ones before
    the items. -/
def sinks (depth : Nat) : List α → Bool
  | [] => false
  | a :: items => decide (a = b.closing ∧ depth = 0) || sinks (b.level depth a) items

theorem sinks_iff {depth : Nat} : b.sinks depth items = true ↔
    ∃ before after, items = before ++ b.closing :: after ∧ before.foldl b.level depth = 0 := by
  induction items generalizing depth with
  | nil => exact ⟨nofun, fun ⟨before, after, h, _⟩ => by cases before <;> cases h⟩
  | cons a items ih =>
      rw [sinks, Bool.or_eq_true, decide_eq_true_eq, ih]
      constructor
      · rintro (⟨rfl, rfl⟩ | ⟨before, after, rfl, hzero⟩)
        · exact ⟨[], items, rfl, rfl⟩
        · exact ⟨a :: before, after, rfl, hzero⟩
      · rintro ⟨before, after, heq, hzero⟩
        cases before with
        | nil =>
            cases heq
            exact .inl ⟨rfl, hzero⟩
        | cons a' before =>
            cases heq
            exact .inr ⟨before, after, rfl, hzero⟩

/-- A closing bracket is unopened exactly if the count is zero where it is met. -/
theorem unopened_iff : b.Unopened items ↔ b.sinks 0 items = true := by
  rw [sinks_iff]
  refine exists_congr fun before => exists_congr fun after => and_congr_right fun _ => ?_
  rw [opens_iff]
  omega

instance (items : List α) : Decidable (b.Unclosed items) := decidable_of_iff _ unclosed_iff.symm

instance (items : List α) : Decidable (b.Unopened items) := decidable_of_iff _ unopened_iff.symm

-- The second bracket is the partner of the third one, so the first has none.
example : round.Unclosed "(1+(2)".toList ∧ ¬ round.Unopened "(1+(2)".toList := by decide

end Brackets

end TurtleGraphics
