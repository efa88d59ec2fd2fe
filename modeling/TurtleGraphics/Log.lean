import TurtleGraphics.Fault

/-!
# The Log

Diagnostics in the order in which they were recorded.

## Main definitions

* `Log`: The recorded diagnostics.
* `Log.locateSince`: Filling in the place of the latest entries.
* `Log.hasErrors`: Whether a problem of the worst severity was recorded.

## Theorems

* `Log.toList_reportAll`, `Log.toList_reportLocated`: Recording faults appends to the log.
* `Log.toList_locateSince`: Which entries get a place.
* `Log.locateSince_eq_reportLocated`: Places that are filled in afterwards are as good as
  places that are known at once.
-/

namespace TurtleGraphics

/-- The recorded diagnostics, oldest first. -/
structure Log where
  entries : Array Diagnostic := #[]
  deriving DecidableEq, Repr

namespace Log

/-- How many diagnostics were recorded. -/
def size (l : Log) : Nat := l.entries.size

def isEmpty (l : Log) : Bool := l.entries.isEmpty

/-- Records a diagnostic. -/
def push (l : Log) (d : Diagnostic) : Log := ⟨l.entries.push d⟩

/-- Records a fault whose place is not known. -/
def report (l : Log) (f : Fault) : Log := l.push f.report

/-- Records faults in order. -/
def reportAll (l : Log) (faults : List Fault) : Log := faults.foldl report l

/-- Records faults with their places in order. -/
def reportLocated (l : Log) (faults : List LocatedFault) : Log :=
  faults.foldl (fun l f => l.push f.report) l

/-- Gives the place `span` to every entry from the `mark`-th on that has none. -/
def locateSince (l : Log) (mark : Nat) (span : Span) : Log :=
  ⟨l.entries.mapIdx fun i d => if mark ≤ i then d.located span else d⟩

/-- Whether an entry has the worst severity. -/
def hasErrors (l : Log) : Bool := l.entries.any (·.severity == .error)

theorem ext_toList {l l' : Log} (h : l.entries.toList = l'.entries.toList) : l = l' := by
  rcases l with ⟨entries⟩
  rcases l' with ⟨entries'⟩
  exact congrArg Log.mk (Array.ext' h)

theorem toList_report (l : Log) (f : Fault) :
    (l.report f).entries.toList = l.entries.toList ++ [f.report] := by
  simp only [report, push, Array.toList_push]

theorem toList_reportAll (l : Log) (faults : List Fault) :
    (l.reportAll faults).entries.toList = l.entries.toList ++ faults.map Fault.report := by
  induction faults generalizing l with
  | nil => simp only [reportAll, List.foldl_nil, List.map_nil, List.append_nil]
  | cons f rest ih =>
      change ((l.report f).reportAll rest).entries.toList = _
      rw [ih, toList_report, List.map_cons, List.append_assoc, List.singleton_append]

theorem toList_reportLocated (l : Log) (faults : List LocatedFault) :
    (l.reportLocated faults).entries.toList =
      l.entries.toList ++ faults.map LocatedFault.report := by
  induction faults generalizing l with
  | nil => simp only [reportLocated, List.foldl_nil, List.map_nil, List.append_nil]
  | cons f rest ih =>
      change ((l.push f.report).reportLocated rest).entries.toList = _
      rw [ih, List.map_cons]
      simp only [push, Array.toList_push, List.append_assoc, List.singleton_append]

/-- Entries before the mark stay as they are, and those from it on are located. -/
theorem toList_locateSince (l : Log) (mark : Nat) (span : Span) :
    (l.locateSince mark span).entries.toList =
      l.entries.toList.take mark ++ (l.entries.toList.drop mark).map (Diagnostic.located span) := by
  rw [locateSince, Array.toList_mapIdx]
  generalize l.entries.toList = entries
  -- The first entry is before the mark, and then the mark is one entry nearer, or it is not.
  induction entries generalizing mark with
  | nil => simp
  | cons d rest ih =>
      cases mark with
      | zero => simpa [List.mapIdx_cons, Function.comp_def] using ih 0
      | succ mark => simpa [List.mapIdx_cons, Function.comp_def] using ih mark

/-- Faults are recorded one after another, some with their places and some without. When the
    end of the log from before them is the mark, filling in a place gives the log in which
    all of them were recorded with places: their own, or else the one filled in. -/
theorem locateSince_eq_reportLocated {l l' : Log} {faults : List (Fault × Option Span)}
    (h : l'.entries.toList =
      l.entries.toList ++ faults.map fun f => { f.1.report with span := f.2 }) (span : Span) :
    l'.locateSince l.size span = l.reportLocated (faults.map fun f => ⟨f.1, f.2.getD span⟩) := by
  have hsize : l.size = l.entries.toList.length := Array.length_toList.symm
  have hlocated : ∀ f : Fault × Option Span, Diagnostic.located span { f.1.report with span := f.2 }
      = LocatedFault.report ⟨f.1, f.2.getD span⟩ := by
    rintro ⟨f, _ | place⟩ <;> rfl
  apply ext_toList
  rw [toList_locateSince, h, hsize, List.take_left, List.drop_left, toList_reportLocated,
    List.map_map, List.map_map]
  exact congrArg (l.entries.toList ++ ·) (List.map_congr_left fun f _ => hlocated f)

/-- Faults that were recorded without places and are located together. -/
theorem locateSince_reportAll (l : Log) (faults : List Fault) (span : Span) :
    (l.reportAll faults).locateSince l.size span = l.reportLocated (Fault.allAt span faults) := by
  have hunplaced : (l.reportAll faults).entries.toList = l.entries.toList ++
      (faults.map fun f => (f, none)).map fun f => { f.1.report with span := f.2 } := by
    rw [toList_reportAll, List.map_map]
    rfl
  rw [locateSince_eq_reportLocated hunplaced, List.map_map]
  rfl

end Log

end TurtleGraphics
