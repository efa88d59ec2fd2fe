import TurtleGraphics.Expression.Evaluate

/-!
# Bindings

A finite table from names to values. Setting a name that is bound already
replaces its value in place; a new name goes to the end. Two tables that were
filled in the same way are therefore the same table.

## Main definitions

* `Table`: Names with something bound to each.
* `Table.get?`, `Table.set`: Looking up and binding.
* `Bindings`: Variables and their values.

## Theorems

* `Table.get?_set_self`: A name that was just bound is found.
* `Table.get?_set_of_ne`: Binding a name leaves the others alone.
-/

namespace TurtleGraphics

/-- Names with something bound to each. -/
structure Table (α : Type) where
  entries : List (String × α) := []

namespace Table

variable {α : Type}

/-- Replaces the first entry for a name, or adds one at the end. -/
def replace (name : String) (a : α) : List (String × α) → List (String × α)
  | [] => [(name, a)]
  | (key, b) :: rest => if key = name then (name, a) :: rest else (key, b) :: replace name a rest

/-- What is bound to a name. -/
def get? (t : Table α) (name : String) : Option α := t.entries.lookup name

/-- Binds a name. -/
def set (t : Table α) (name : String) (a : α) : Table α := ⟨replace name a t.entries⟩

theorem lookup_replace_self (name : String) (a : α) (entries : List (String × α)) :
    (replace name a entries).lookup name = some a := by
  induction entries with
  | nil => simp [replace]
  | cons e rest ih =>
    rw [replace]
    by_cases h : e.1 = name
    · simp [h]
    · rw [if_neg h, List.lookup_cons, beq_false_of_ne (Ne.symm h)]
      exact ih

theorem lookup_replace_of_ne {name other : String} (h : other ≠ name) (a : α)
    (entries : List (String × α)) :
    (replace name a entries).lookup other = entries.lookup other := by
  induction entries with
  | nil => simp [replace, List.lookup_cons, beq_false_of_ne h]
  | cons e rest ih =>
    rw [replace]
    by_cases hk : e.1 = name
    · rw [if_pos hk, List.lookup_cons, List.lookup_cons, hk]
      simp [beq_false_of_ne h]
    · rw [if_neg hk, List.lookup_cons, List.lookup_cons, ih]

/-- A name that was just bound is found. -/
@[simp]
theorem get?_set_self (t : Table α) (name : String) (a : α) :
    (t.set name a).get? name = some a :=
  lookup_replace_self name a t.entries

/-- Binding a name leaves the others alone. -/
theorem get?_set_of_ne (t : Table α) {name other : String} (h : other ≠ name) (a : α) :
    (t.set name a).get? other = t.get? other :=
  lookup_replace_of_ne h a t.entries

end Table

/-- Variables and their values. -/
abbrev Bindings := Table Scalar

/-- Fixed variables: reading one changes nothing. -/
instance : Variables Bindings where
  read name b := (b.get? name, b)

end TurtleGraphics
