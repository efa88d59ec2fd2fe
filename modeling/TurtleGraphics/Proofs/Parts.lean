import Mathlib.Data.List.TakeWhile
import TurtleGraphics.Proofs.Everywhere
import TurtleGraphics.Proofs.Splitting

/-!
# What the Parts of a Statement Are Made Of

Names, parameters and bodies are cut out of the text as they stand there. So what holds of
all characters of a text holds of all characters in the parts of its statements, and in the
parts of the statements in their bodies. Two things hold whatever the text is: a name is a
run of name characters and is never empty, and a parameter stands within one line, for the
end of a line ends every parameter list.

## Main definitions

* `Statement.MadeOf`: What the parts of a statement are made of.

## Theorems

* `Cursor.of_mem_readName`, `Cursor.of_mem_readParams`: What names and parameters are made of.
* `Cursor.newline_not_mem_readParams`: Parameters stand within one line.
* `Statement.madeOf_of_mem_statements`: What the statements of a text are made of.
-/

namespace TurtleGraphics

variable {ch : Char}

theorem Cursor.Proceeds.subset {c d : Cursor} (h : c.Proceeds d) : d.rest ⊆ c.rest := by
  rcases h with ⟨passed, hrest, -⟩
  rw [hrest]
  exact List.subset_append_right passed d.rest

theorem Block.Occupies.subset {b : Block} {start : Nat} {text : List Char}
    (h : b.Occupies start text) : b.text ⊆ text := by
  rcases h with ⟨before, behind, rfl, -⟩
  exact fun c hc => List.mem_append_left _ (List.mem_append_right _ hc)

theorem Text.mem_of_mem_trim {text : List Char} (h : ch ∈ trim text) : ch ∈ text := by
  rw [trim, trimEnd, List.mem_reverse] at h
  have hend := (List.dropWhile_suffix isWhiteSpace).subset h
  exact (List.dropWhile_suffix isWhiteSpace).subset (List.mem_reverse.mp hend)

/-- What stands between brackets has no character in it that ends the text there. -/
theorem Enclosed.not_stops_of_mem_readFrom {d : Delimiter} {stops : Char → Bool} {depth : Nat}
    {taken text : List Char} (htaken : ∀ c ∈ taken, stops c = false)
    (h : ch ∈ (readFrom d stops depth taken text).inside) : stops ch = false := by
  induction text generalizing depth taken with
  | nil => exact htaken ch (List.mem_reverse.mp h)
  | cons c rest ih =>
      unfold readFrom at h
      by_cases hstop : stops c = true
      · rw [if_pos hstop] at h
        exact htaken ch (List.mem_reverse.mp h)
      · rw [if_neg hstop] at h
        have hnext : ∀ c' ∈ c :: taken, stops c' = false :=
          List.forall_mem_cons.mpr ⟨Bool.eq_false_iff.mpr hstop, htaken⟩
        split at h
        · split at h
          · exact htaken ch (List.mem_reverse.mp h)
          · exact ih hnext h
        · exact ih hnext h

namespace Cursor

variable {c : Cursor}

/-- A name has at least one character, and only name characters that stand in the text. -/
theorem of_mem_readName {name : String} (h : name ∈ c.readName.1) :
    name.toList ≠ [] ∧ ∀ ch ∈ name.toList, isNameChar ch = true ∧ ch ∈ c.rest := by
  simp only [readName] at h
  split at h
  next => cases h
  next hne =>
    cases h
    rw [String.toList_ofList]
    refine ⟨fun hnil => hne (by rw [hnil]; rfl), fun ch hch => ⟨List.mem_takeWhile_imp hch, ?_⟩⟩
    have hrest : ch ∈ (c.skip isSpacing).rest := (List.takeWhile_prefix _).subset hch
    exact (proceeds_skip isSpacing c).subset hrest

/-- A parameter has no end of a line in it, for that ends the list wherever it stands. -/
theorem newline_not_mem_readParams {p : Param} (hp : p ∈ c.readParams.1.items) :
    '\n' ∉ p.text := by
  intro hmem
  unfold readParams at hp
  simp only at hp
  split at hp
  next rest heq =>
    rcases List.mem_filterMap.mp hp with ⟨piece, hpiece, hp⟩
    rw [Param.text_of_ofPiece? hp] at hmem
    have hinside : '\n' ∈ (Enclosed.read .round endsList rest).inside :=
      (occupies_of_mem_pieces hpiece).subset (Text.mem_of_mem_trim hmem)
    have hstops : endsList '\n' = false :=
      Enclosed.not_stops_of_mem_readFrom (fun _ h => absurd h List.not_mem_nil) hinside
    exact absurd hstops (by decide)
  next => cases hp
  next => cases hp
  next => cases hp

theorem of_mem_readParams {p : Param} (hp : p ∈ c.readParams.1.items) :
    ∀ ch ∈ p.text, ch ≠ '\n' ∧ ch ∈ c.rest := by
  rcases occupies_of_mem_readParams hp with ⟨text, htext, -, hoccupies⟩
  intro ch hch
  refine ⟨fun heq => newline_not_mem_readParams hp (heq ▸ hch), ?_⟩
  rw [htext] at hch
  exact hoccupies.subset (Text.mem_of_mem_trim hch)

end Cursor

/-- All characters in the parts of a statement are of a kind. A name has at least one
    character, and only name characters, and a parameter stands within one line. -/
structure Statement.MadeOf (P : Char → Prop) (s : Statement) : Prop where
  name : ∀ name ∈ s.name, name.toList ≠ [] ∧ ∀ ch ∈ name.toList, isNameChar ch = true ∧ P ch
  params : ∀ p ∈ s.params.items, ∀ ch ∈ p.text, ch ≠ '\n' ∧ P ch
  body : ∀ b, s.body = .block b → ∀ ch ∈ b.text, P ch

namespace Statement

variable {P : Char → Prop}

/-- A statement is made of characters of the text that it is read from. -/
theorem madeOf_read {c : Cursor} (h : ∀ ch ∈ c.rest, P ch) (code : Code) :
    (read code c).1.MadeOf P := by
  rcases read_by_parts code c with ⟨c₁, c₂, c₃, hname, hlist, -, -, hbody, -⟩
  refine ⟨fun name hmem => ?_, fun p hp ch hch => ?_, fun b hb ch hch => ?_⟩
  · simp only [read] at hmem
    split at hmem
    · rcases Cursor.of_mem_readName hmem with ⟨hne, hchars⟩
      exact ⟨hne, fun ch hch => (hchars ch hch).imp_right (h ch)⟩
    · cases hmem
  · have hrest : c.Proceeds (if code.hasName then c.readName else (none, c)).2 := by
      split
      · exact c.proceeds_readName
      · exact .refl c
    simp only [read] at hp
    split at hp
    · exact (Cursor.of_mem_readParams hp ch hch).imp_right fun hmem => h ch (hrest.subset hmem)
    · cases hp
  · have hoccupies := (hbody b hb).occupies
    exact h ch ((hname.trans hlist).subset (hoccupies.subset hch))

theorem madeOf_of_mem_statements {start : Nat} {text : List Char} {s : Statement}
    (h : ∀ ch ∈ text, P ch) (hs : .statement s ∈ statements start text) : s.MadeOf P := by
  rcases exists_read_of_mem_statements hs with ⟨code, c, hproceeds, rfl⟩
  exact madeOf_read (fun ch hch => h ch (hproceeds.subset hch)) code

end Statement

end TurtleGraphics
