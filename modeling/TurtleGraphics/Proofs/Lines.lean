import Mathlib.Data.List.Induction
import TurtleGraphics.Preview
import TurtleGraphics.Proofs.Quoting

/-!
# The Lines of a Preview

A preview shows the diagnostics of a run as one text, a line for each of them, and a line that
has come up before is left out. A host that takes the text apart again gets what was put into
it: no message has the end of a line in it, so the lines of the text are the lines of the
diagnostics. They are all there, each of them once, and in the order in which they came up
first. Whether a problem was bad can be told from the first word of its line.

## Main definitions

* `Preview.linesOf`: The lines of a text.

## Theorems

* `pairwise_idxOf_eraseDups`: Leaving out repetitions keeps the order of what came up first.
* `Preview.newline_not_mem_line`: A diagnostic is shown in one line.
* `Preview.linesOf_intercalate`: Lines that are put together can be taken apart.
* `Preview.isPrefix_line_iff`: Errors can be told from their lines.
* `preview_lines`: The text of a preview has the diagnostics of the run as its lines.
-/

namespace TurtleGraphics

/-- In a list without its repetitions everything stands in the order in which it first came up
    in the list. By induction from the end: what is added at the end comes up last, or has come
    up before. -/
theorem pairwise_idxOf_eraseDups {α : Type} [BEq α] [LawfulBEq α] (xs : List α) :
    xs.eraseDups.Pairwise fun x y => xs.idxOf x < xs.idxOf y := by
  induction xs using List.reverseRecOn with
  | nil => exact List.Pairwise.nil
  | append_singleton xs a ih =>
      have hbefore : xs.eraseDups.Pairwise fun x y =>
          (xs ++ [a]).idxOf x < (xs ++ [a]).idxOf y := by
        refine ih.imp_of_mem fun {x y} hx hy hlt => ?_
        rw [List.idxOf_append_of_mem (List.mem_eraseDups.mp hx),
          List.idxOf_append_of_mem (List.mem_eraseDups.mp hy)]
        exact hlt
      rw [List.eraseDups_append]
      -- What was there before keeps its place when something is added behind it.
      by_cases ha : a ∈ xs
      · have hnone : [a].removeAll xs = [] := by simp [List.removeAll, ha]
        rw [hnone]
        simpa using hbefore
      · have hone : [a].removeAll xs = [a] := by simp [List.removeAll, ha]
        rw [hone, List.pairwise_append]
        refine ⟨hbefore, by simp [List.eraseDups_cons], fun x hx y hy => ?_⟩
        have hx' : x ∈ xs := List.mem_eraseDups.mp hx
        obtain rfl : y = a := by simpa using hy
        rw [List.idxOf_append_of_mem hx', List.idxOf_append_of_notMem ha]
        have hlt := List.idxOf_lt_length_iff.mpr hx'
        omega

namespace Preview

/-- The lines of a text. An empty text has none. -/
def linesOf (text : String) : List String :=
  if text = "" then [] else (text.toList.splitOn '\n').map String.ofList

theorem linesOf_eq_nil_iff (text : String) : linesOf text = [] ↔ text = "" := by
  unfold linesOf
  split
  next hempty => exact iff_of_true rfl hempty
  next hne =>
    refine iff_of_false (fun hnil => ?_) hne
    exact List.splitOn_ne_nil '\n' _ (List.map_eq_nil_iff.mp hnil)

/-- Lines that are put together can be taken apart, if there is something in each of them. -/
theorem linesOf_intercalate {lines : List String} (hline : ∀ l ∈ lines, '\n' ∉ l.toList)
    (hne : ∀ l ∈ lines, l ≠ "") : linesOf ("\n".intercalate lines) = lines := by
  rcases lines with _ | ⟨first, rest⟩
  · rfl
  have htext : ("\n".intercalate (first :: rest)).toList
      = ['\n'].intercalate ((first :: rest).map String.toList) := by
    rw [String.toList_intercalate]
    rfl
  have hnonempty : "\n".intercalate (first :: rest) ≠ "" := by
    intro hempty
    rw [hempty] at htext
    have hfirst : first.toList = [] := by
      cases rest with
      | nil => simpa using htext.symm
      | cons second rest => simp [List.intercalate_cons_cons] at htext
    exact hne first List.mem_cons_self (String.toList_eq_nil_iff.mp hfirst)
  have hsplit : List.splitOn '\n' (['\n'].intercalate ((first :: rest).map String.toList))
      = (first :: rest).map String.toList :=
    List.splitOn_intercalate '\n' (List.forall_mem_map.mpr hline) (List.cons_ne_nil _ _)
  rw [linesOf, if_neg hnonempty, htext, hsplit, List.map_map]
  exact List.map_id'' (fun _ => String.ofList_toList) _

theorem newline_not_mem_line {d : Diagnostic} (h : '\n' ∉ d.message.toList) :
    '\n' ∉ (line d).toList := by
  have hlabel : '\n' ∉ (label d.severity).toList := by
    cases d.severity <;> decide
  have hshown : '\n' ∉ d.shown.toList := by
    unfold Diagnostic.shown
    split
    next span _ =>
      have hstart := newline_not_mem_toString span.start
      have hstop := newline_not_mem_toString span.stop
      simp only [Span.shown, String.toList_append, List.mem_append, h, hstart, hstop, or_false]
      decide
    next => exact h
  simp [line, hlabel, hshown]

/-- Errors can be told from their lines. -/
theorem isPrefix_line_iff (d : Diagnostic) :
    "error ".toList <+: (line d).toList ↔ d.severity = .error := by
  rw [line, String.toList_append, String.toList_append]
  cases d.severity with
  | error => exact iff_of_true (List.prefix_append _ _) rfl
  | info | warning =>
      refine iff_of_false ?_ nofun
      rintro ⟨rest, heq⟩
      cases heq

theorem hasErrors_iff (l : Log) :
    l.hasErrors = true ↔ ∃ d ∈ l.entries.toList, "error ".toList <+: (line d).toList := by
  simp only [isPrefix_line_iff]
  rw [Log.hasErrors, ← Array.any_toList, List.any_eq_true]
  simp only [beq_iff_eq]

theorem line_ne_empty (d : Diagnostic) : line d ≠ "" := by
  intro hempty
  have hlist := congrArg String.toList hempty
  simp [line] at hlist

/-- The text of a preview has as its lines the lines of the diagnostics, without
    repetitions. -/
theorem linesOf_diagnostics (o : Options) (source : String) :
    linesOf (ofReport (run o source)).diagnostics
      = ((run o source).log.entries.toList.map line).eraseDups := by
  have hlines : ∀ l ∈ lines (run o source).log,
      ∃ d ∈ (run o source).log.entries.toList, line d = l :=
    fun l hl => List.mem_map.mp (List.mem_eraseDups.mp hl)
  refine linesOf_intercalate (fun l hl => ?_) (fun l hl => ?_)
  · rcases hlines l hl with ⟨d, hd, rfl⟩
    exact newline_not_mem_line (newline_not_mem_message_run hd)
  · rcases hlines l hl with ⟨d, -, rfl⟩
    exact line_ne_empty d

end Preview

/-- The text of a preview is faithful. No message of any run has the end of a line in it. So
    the lines of the text are the lines of the diagnostics of the run, each of them once and in
    the order in which they first came up, and there is no text if and only if there are no
    diagnostics. A preview has an error if and only if a line of its text says so. -/
theorem preview_lines (source : String) :
    (∀ o : Options, ∀ d ∈ (run o source).log.entries.toList, '\n' ∉ d.message.toList) ∧
      ∀ (width height maxOperations : Scalar) (cursor : Bool),
        let o : Options := ⟨width, height, Preview.operationLimit maxOperations, cursor⟩
        let logged := (run o source).log.entries.toList.map Preview.line
        let shown := Preview.render source width height maxOperations cursor
        let lines := Preview.linesOf shown.diagnostics
        lines.Nodup ∧ (∀ l, l ∈ lines ↔ l ∈ logged) ∧
          (lines.Pairwise fun l l' => logged.idxOf l < logged.idxOf l') ∧
          (shown.diagnostics = "" ↔ (run o source).log.entries.toList = []) ∧
          (shown.hasError = true ↔ ∃ l ∈ lines, "error ".toList <+: l.toList) := by
  refine ⟨fun o d hd => newline_not_mem_message_run hd, ?_⟩
  intro width height maxOperations cursor o logged shown lines
  have hlines : lines = logged.eraseDups := Preview.linesOf_diagnostics o source
  have hmem : ∀ l, l ∈ lines ↔ l ∈ logged := fun l => by rw [hlines, List.mem_eraseDups]
  have horder : lines.Pairwise fun l l' => logged.idxOf l < logged.idxOf l' := by
    rw [hlines]
    exact pairwise_idxOf_eraseDups logged
  refine ⟨horder.imp fun {l l'} hlt heq => ?_, hmem, horder, ?_, ?_⟩
  · rw [heq] at hlt
    exact Nat.lt_irrefl _ hlt
  · rw [← Preview.linesOf_eq_nil_iff, List.eq_nil_iff_forall_not_mem]
    simp only [lines, hmem]
    rw [← List.eq_nil_iff_forall_not_mem]
    exact List.map_eq_nil_iff
  · -- Leaving out a repetition loses no error: it has the same line as one that is kept.
    change (run o source).log.hasErrors = true ↔ _
    rw [Preview.hasErrors_iff]
    constructor
    · rintro ⟨d, hd, herror⟩
      exact ⟨Preview.line d, (hmem _).mpr (List.mem_map_of_mem hd), herror⟩
    · rintro ⟨l, hl, herror⟩
      rcases List.mem_map.mp ((hmem l).mp hl) with ⟨d, hd, rfl⟩
      exact ⟨d, hd, herror⟩

/-- Two calls of a procedure that is not there have one line between them, and a list that is
    not closed has its own. -/
theorem preview_lines_repeated :
    let source := "@x\n@x(\nD(1"
    let missing := (Fault.undefinedProcedure "X").report
    let shown := Preview.render source 500.0 500.0 9.0 false
    let lines := Preview.linesOf shown.diagnostics
    (run ⟨500.0, 500.0, 9, false⟩ source).log.entries.toList.count missing = 2 ∧
      '\n' ∉ missing.message.toList ∧ lines.count "error Procedure not defined: X" = 1 ∧
      shown.diagnostics ≠ "" ∧ shown.hasError = true := by
  intro source missing shown lines
  have hlimit : Preview.operationLimit 9.0 = 9 := by decide +kernel
  have hcount : (run ⟨500.0, 500.0, 9, false⟩ source).log.entries.toList.count missing = 2 := by
    decide +kernel
  have hmem : missing ∈ (run ⟨500.0, 500.0, 9, false⟩ source).log.entries.toList :=
    List.count_pos_iff.mp (by omega)
  rcases preview_lines source with ⟨hmessage, hpreview⟩
  have h := hpreview 500.0 500.0 9.0 false
  simp only [hlimit] at h
  rcases h with ⟨hnodup, hlines, -, hempty, herror⟩
  have hline : Preview.line missing ∈ lines := (hlines _).mpr (List.mem_map_of_mem hmem)
  refine ⟨hcount, hmessage _ missing hmem, ?_, ?_, ?_⟩
  · exact List.count_eq_one_of_mem hnodup hline
  · exact fun h => List.ne_nil_of_mem hmem (hempty.mp h)
  · exact herror.mpr ⟨_, hline, by decide⟩

end TurtleGraphics
