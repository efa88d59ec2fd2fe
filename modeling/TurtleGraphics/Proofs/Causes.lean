import TurtleGraphics.Program.Parse
import TurtleGraphics.Proofs.Outline

/-!
# Commands Without Their Places

The commands that a statement gives, and what is wrong with it, do not depend on where
the statement stands: places go into what is reported and nowhere else. So the commands
of a text are those of its outline, and two texts with one outline give the same
commands and the same causes of problems.

Each function that finds something is compared with itself on the same thing without
its place. The comparison goes through `bind` and `traverse`, so every lemma here
follows the function it is about. What two findings are compared for is left open: the
lemmas hold for every relation that sequencing respects and that does not look at
places (`Noted.Congruence`). One such relation is to find the same for the same reasons
(`Noted.Alike`).

Bodies are the one thing that is read again, by a function that is passed in. It must
not depend on places either, and that it does not is an induction on how deep bodies
may still be nested.

## Main definitions

* `Noted.causes`: What went wrong, wherever it did.
* `Noted.Finds`: A value is found, and this goes wrong.
* `Noted.Alike`: The same value, and the same goes wrong.
* `Noted.Congruence`: A relation between findings that does not look at places.
* `commandsOf`: The commands of items.
* `nestedAt`: The commands of a block inside others.

## Theorems

* `Noted.Congruence.command`: The place of a statement does not matter for its command.
* `value_commandsOf`, `causes_commandsOf`: Items are taken one by one.
* `Noted.Congruence.commandsAt`: The commands of a text are those of its outline.
* `alike_commandsAt`: The same, for the values and the causes.
-/

namespace TurtleGraphics

namespace Noted

variable {α β γ : Type} {x y : Noted α} {a : α} {wrong : List Fault}

/-- What went wrong, wherever it did. -/
def causes (x : Noted α) : List Fault := x.faults.map LocatedFault.fault

@[simp]
theorem causes_pure (a : α) : (Pure.pure a : Noted α).causes = [] := rfl

@[simp]
theorem causes_bind (x : Noted α) (f : α → Noted β) :
    (x >>= f).causes = x.causes ++ (f x.value).causes :=
  List.map_append

/-- A value is found, and this is what goes wrong. -/
structure Finds (x : Noted α) (a : α) (wrong : List Fault) : Prop where
  value : x.value = a
  causes : x.causes = wrong

/-- The same value, and the same goes wrong. -/
def Alike (x y : Noted α) : Prop := x.Finds y.value y.causes

namespace Finds

theorem of_alike (halike : Alike x y) (h : y.Finds a wrong) : x.Finds a wrong :=
  ⟨halike.value.trans h.value, halike.causes.trans h.causes⟩

theorem bind {f : α → Noted β} {b : β} {wrong' : List Fault} (h : x.Finds a wrong)
    (hf : (f a).Finds b wrong') : (x >>= f).Finds b (wrong ++ wrong') := by
  refine ⟨?_, ?_⟩
  · rw [value_bind, h.value, hf.value]
  · rw [causes_bind, h.causes, h.value, hf.causes]

theorem returns {f : α → Noted β} {b : β} (h : x.Finds a wrong) (hf : f a = Pure.pure b) :
    (x >>= f).Finds b wrong := by
  have hpure : (f a).Finds b [] := by
    rw [hf]
    exact ⟨rfl, rfl⟩
  rw [← List.append_nil wrong]
  exact h.bind hpure

theorem traverse {f : α → Noted β} {k : γ → α} {v : γ → β} {problems : γ → List Fault}
    (h : ∀ c, (f (k c)).Finds (v c) (problems c)) (cs : List γ) :
    (traverse f (cs.map k)).Finds (cs.map v) (cs.flatMap problems) := by
  refine ⟨?_, ?_⟩
  · simp only [Noted.traverse, List.map_map]
    exact List.map_congr_left fun c _ => (h c).value
  · simp only [Noted.traverse, Noted.causes, List.map_map, List.flatMap_map, List.map_flatMap]
    exact congrArg (List.flatMap · cs) (funext fun c => (h c).causes)

end Finds

namespace Alike

theorem refl (x : Noted α) : Alike x x := ⟨rfl, rfl⟩

theorem symm (h : Alike x y) : Alike y x := ⟨h.value.symm, h.causes.symm⟩

theorem bind (h : Alike x y) {f g : α → Noted β} (hf : ∀ a, Alike (f a) (g a)) :
    Alike (x >>= f) (y >>= g) := by
  rw [Alike, value_bind, causes_bind]
  exact Finds.bind h (hf y.value)

theorem traverse {f : α → Noted β} {g : γ → Noted β} {k : α → γ}
    (hf : ∀ a, Alike (f a) (g (k a))) (xs : List α) :
    Alike (traverse f xs) (traverse g (xs.map k)) := by
  have hhere := Finds.traverse (k := id) hf xs
  have hthere := Finds.traverse (k := k) (fun a => Alike.refl (g (k a))) xs
  rw [List.map_id] at hhere
  rw [Alike, hthere.value, hthere.causes]
  exact hhere

end Alike

end Noted

/-- The commands of items, where `nested` finds the commands of a block. -/
def commandsOf (nested : Block → Noted (List Command)) (items : List Item) :
    Noted (List Command) := do
  let commands ← Noted.traverse (Item.command nested) items
  return commands.filterMap id

theorem value_commandsOf (nested : Block → Noted (List Command)) (items : List Item) :
    (commandsOf nested items).value = items.filterMap fun i => (i.command nested).value := by
  simp only [commandsOf, Noted.traverse, Noted.value_bind, Noted.value_pure, List.map_map]
  rw [List.filterMap_map]
  rfl

theorem causes_commandsOf (nested : Block → Noted (List Command)) (items : List Item) :
    (commandsOf nested items).causes = items.flatMap fun i => (i.command nested).causes := by
  simp only [commandsOf, Noted.causes_bind, Noted.causes_pure, List.append_nil]
  simp only [Noted.traverse, Noted.causes, List.flatMap_map, List.map_flatMap]

/-- The commands of a block inside `room` others. -/
def nestedAt : (room : Nat) → Block → Noted (List Command)
  | 0 => fun b => ⟨[], [⟨.nestedTooDeep, b.span⟩]⟩
  | room + 1 => fun b => commandsAt room b.start b.text

theorem commandsAt_eq (room start : Nat) (text : List Char) :
    commandsAt room start text = commandsOf (nestedAt room) (statements start text) := by
  cases room <;> rfl

namespace Noted

/-- A relation between findings that sequencing respects and that does not look at
    places. No finding reports the end of a run. -/
structure Congruence (R : (α : Type) → Noted α → Noted α → Prop) : Prop where
  symm {α : Type} {x y : Noted α} : R α x y → R α y x
  trans {α : Type} {x y z : Noted α} : R α x y → R α y z → R α x z
  pure {α : Type} (a : α) : R α (Pure.pure a) (Pure.pure a)
  bind {α β : Type} {x y : Noted α} {f g : α → Noted β} :
    R α x y → (∀ a, R β (f a) (g a)) → R β (x >>= f) (y >>= g)
  traverse {α β γ : Type} {f : α → Noted β} {g : γ → Noted β} {k : α → γ} :
    (∀ a, R β (f a) (g (k a))) → ∀ xs : List α,
      R (List β) (traverse f xs) (traverse g (xs.map k))
  fault {α : Type} (a : α) (f : Fault) (span span' : Span) : f.kind ≠ .limitExceeded →
    R α ⟨a, [⟨f, span⟩]⟩ ⟨a, [⟨f, span'⟩]⟩
  expression (p : Param) : R (Option Expression) p.expression p.unplaced.expression

namespace Congruence

variable {R : (α : Type) → Noted α → Noted α → Prop} (h : Congruence R)
include h

theorem name (p : Param) : R _ p.name p.unplaced.name := by
  unfold Param.name Param.unplaced
  simp only
  split
  · split <;> exact h.pure _
  · exact h.fault _ _ _ _ nofun

theorem firstExpression (ps : Params) : R _ ps.firstExpression ps.unplaced.firstExpression := by
  obtain ⟨items, ending⟩ := ps
  cases items with
  | nil => exact h.pure _
  | cons p _ => exact h.expression p

theorem firstArg (ps : Params) (default : Scalar) :
    R _ (ps.firstArg default) (ps.unplaced.firstArg default) :=
  h.bind (h.firstExpression ps) fun _ => h.pure _

theorem arg (default : Scalar) (p : Param) : R _ (p.arg default) (p.unplaced.arg default) :=
  h.bind (h.expression p) fun _ => h.pure _

theorem args (ps : Params) (default : Scalar) :
    R _ (ps.args default) (ps.unplaced.args default) :=
  h.traverse (h.arg default) ps.items

theorem colorArgs (ps : Params) : R _ ps.colorArgs ps.unplaced.colorArgs :=
  h.bind (h.traverse h.expression ps.items) fun _ => h.pure _

theorem names (ps : Params) : R _ ps.names ps.unplaced.names := h.traverse h.name ps.items

theorem bracketFaults (ps : Params) (span span' : Span) :
    R _ (Noted.report (ps.bracketFaults span))
      (Noted.report (ps.unplaced.bracketFaults span')) := by
  obtain ⟨items, ending⟩ := ps
  cases ending with
  | proper => exact h.pure _
  | unopened => exact h.fault _ _ _ _ nofun
  | unclosed list => exact h.fault _ _ _ _ nofun

theorem refuse (s : Statement) {f : Fault} (hf : f.kind ≠ .limitExceeded) :
    R _ (s.refuse f) (s.unplaced.refuse f) :=
  h.fault _ _ _ _ hf

theorem instruction (s : Statement) : R _ s.instruction s.unplaced.instruction := by
  obtain ⟨code, name, params, body, span⟩ := s
  cases code with
  | turn => exact h.bind (h.firstExpression params) fun _ => h.pure _
  | heading | step | width | limit => exact h.bind (h.firstArg params _) fun _ => h.pure _
  | move => exact h.bind (h.args params _) fun _ => h.pure _
  | color | background => exact h.bind (h.colorArgs params) fun _ => h.pure _
  | _ => exact h.pure _

theorem assignment (s : Statement) : R _ s.assignment s.unplaced.assignment := by
  obtain ⟨code, name, params, body, span⟩ := s
  refine h.bind (h.firstExpression params) fun value => ?_
  cases name with
  | none => exact h.refuse _ nofun
  | some name =>
      cases value with
      | none => exact h.refuse _ nofun
      | some value => exact h.pure _

theorem procedure (s : Statement) (body : Option (List Command)) :
    R _ (s.procedure body) (s.unplaced.procedure body) := by
  obtain ⟨code, name, params, _, span⟩ := s
  cases name with
  | none => exact h.refuse _ nofun
  | some name =>
      cases body with
      | none => exact h.bind (h.args params _) fun _ => h.pure _
      | some body => exact h.bind (h.names params) fun _ => h.pure _

section

variable {nested : Block → Noted (List Command)}
  (hnested : ∀ b, R _ (nested b) (nested b.unplaced))
include hnested

theorem body (body : Body) (span span' : Span) :
    R _ (body.commands nested span) (body.unplaced.commands nested span') := by
  cases body with
  | absent => exact h.pure _
  | unopened => exact h.fault _ _ _ _ nofun
  | block b =>
      have hreport : R _ (Noted.report (if b.closed then [] else [⟨.unclosed .curly, b.openSpan⟩]))
          (Noted.report
            (if b.closed then [] else [⟨.unclosed .curly, b.unplaced.openSpan⟩])) := by
        cases b.closed with
        | true => exact h.pure _
        | false => exact h.fault _ _ _ _ nofun
      exact h.bind hreport fun _ => h.bind (hnested b) fun _ => h.pure _

theorem command (s : Statement) : R _ (s.command nested) (s.unplaced.command nested) := by
  refine h.bind (h.bracketFaults s.params _ _) fun _ => ?_
  obtain ⟨code, name, params, body, span⟩ := s
  have hbody := h.body hnested body
  cases code with
  | loop => exact h.bind (h.firstArg params _) fun _ => h.bind (hbody _ _) fun _ => h.pure _
  | condition =>
      refine h.bind (h.firstArg params _) fun _ => h.bind (hbody _ _) fun commands => ?_
      cases commands with
      | none => exact h.refuse _ nofun
      | some _ => exact h.pure _
  | procedure => exact h.bind (hbody _ _) fun _ => h.procedure _ _
  | assign => exact h.assignment _
  | _ => exact h.bind (h.instruction _) fun _ => h.pure _

theorem item (item : Item) : R _ (item.command nested) (item.unplaced.command nested) := by
  cases item with
  | statement s => exact h.command hnested s
  | unknown c pos => exact h.fault _ _ _ _ nofun

theorem items (items : List Item) :
    R _ (commandsOf nested items) (commandsOf nested (items.map Item.unplaced)) :=
  h.bind (h.traverse (h.item hnested) items) fun _ => h.pure _

end

theorem commandsAt_of_nested {room : Nat}
    (hnested : ∀ b, R _ (nestedAt room b) (nestedAt room b.unplaced)) (start : Nat)
    (text : List Char) :
    R _ (commandsAt room start text) (commandsOf (nestedAt room) (outline text)) := by
  rw [commandsAt_eq, ← unplaced_statements start text]
  exact h.items hnested _

theorem block (room : Nat) (b : Block) : R _ (nestedAt room b) (nestedAt room b.unplaced) := by
  induction room generalizing b with
  | zero => exact h.fault _ _ _ _ nofun
  | succ room ih =>
      -- Wherever the text of the block stands, its commands are those of its outline.
      have here := h.commandsAt_of_nested ih b.start b.text
      have there := h.commandsAt_of_nested ih 0 b.text
      exact h.trans here (h.symm there)

/-- The commands of a text are those of its outline, at every place and every depth. -/
theorem commandsAt (room start : Nat) (text : List Char) :
    R _ (commandsAt room start text) (commandsOf (nestedAt room) (outline text)) :=
  h.commandsAt_of_nested (h.block room) start text

end Congruence

end Noted

theorem Fault.map_fault_allAt (span : Span) (faults : List Fault) :
    (Fault.allAt span faults).map LocatedFault.fault = faults := by
  rw [Fault.allAt, List.map_map]
  exact List.map_id faults

theorem congruence_alike : Noted.Congruence fun _ x y => Noted.Alike x y where
  symm := .symm
  trans := .of_alike
  pure := fun _ => .refl _
  bind := fun hx hf => hx.bind hf
  traverse := .traverse
  fault := fun _ _ _ _ _ => ⟨rfl, rfl⟩
  expression := by
    intro p
    refine ⟨rfl, ?_⟩
    exact (Fault.map_fault_allAt _ _).trans (Fault.map_fault_allAt _ _).symm

/-- Commands and causes are those of the outline. -/
theorem alike_commandsAt (room start : Nat) (text : List Char) :
    Noted.Alike (commandsAt room start text) (commandsOf (nestedAt room) (outline text)) :=
  congruence_alike.commandsAt room start text

end TurtleGraphics
