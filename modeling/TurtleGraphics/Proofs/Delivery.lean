import TurtleGraphics.CommandLine.Memory

/-!
# Delivery

What one call of the program leaves behind on a host in memory. A call is refused, or
does not get at its program, or shows the picture on the standard output, or tries to
write it to a file. `Delivery` has a case for each of these, with the code that the call
ends with.

A picture that is written is found again under the path that was given. Only directories
are walked through, and writing a file leaves these alone, so that a way that could be
walked before still can be (`FileTree.approach_put`). All other places are as they were.

Where the picture is shown, nothing else is on the standard output: notes about the
program go to the other stream then. The diagnostics are shown one by one, so that this
is a step lemma about one of them and an induction over all (`kept_showAll`).

## Main definitions

* `FileTree.Written`: One file was written and everything else is as before.
* `Memory.Kept`: What showing diagnostics leaves alone.
* `Args.svg`: The picture of a program, as it is written.
* `Delivery`: What a call leaves behind.

## Theorems

* `FileTree.approach_put`: A way that could be walked still can be after a file was put.
* `FileTree.write_cases`: All that a successful writing has seen and done.
* `FileTree.written_of_write`: A file that was written is found again.
* `kept_showAll`: Showing diagnostics leaves the files alone.
* `session_delivery`: Every call ends in one of the ways of `Delivery`.
* `tree_session_of_ne_success`: A call that fails has changed no file.
-/

namespace TurtleGraphics

namespace CommandLine

theorem exists_of_bind_ok {α β : Type} {x : Except FileError α} {f : α → Except FileError β}
    {b : β} (h : (x >>= f) = .ok b) : ∃ a, x = .ok a ∧ f a = .ok b := by
  cases x with
  | error e => cases h
  | ok a => exact ⟨a, rfl, h⟩

namespace FileTree

variable {t t' : FileTree} {p working dir : Place} {content : ByteArray}

@[simp]
theorem isDirectory_put (t : FileTree) (p q : Place) (content : ByteArray) :
    (t.put p content).isDirectory q = t.isDirectory q := rfl

theorem enter_put {s : Step} {dir' : Place} (h : t.enter dir s = .ok dir') :
    (t.put p content).enter dir s = .ok dir' := by
  cases s with
  | stay => exact h
  | up => exact h
  | into name =>
    simp only [enter, isDirectory_put] at h ⊢
    by_cases hlong : maxName < name.utf8ByteSize
    · simp [hlong] at h
    · by_cases hdir : t.isDirectory (name :: dir) = true
      · simpa [hlong, hdir] using h
      · -- What is no directory is not entered, whether a file stands there or not.
        cases hfile : t.content? (name :: dir) <;> simp [hlong, hdir, hfile] at h

theorem foldlM_enter_put {steps : List Step} {dir' : Place}
    (h : steps.foldlM t.enter dir = .ok dir') :
    steps.foldlM (t.put p content).enter dir = .ok dir' := by
  induction steps generalizing dir with
  | nil => exact h
  | cons s rest ih =>
    rw [List.foldlM_cons] at h ⊢
    obtain ⟨next, hs, hrest⟩ := exists_of_bind_ok h
    rw [enter_put hs]
    exact ih hrest

/-- A way that could be walked still can be after a file was put somewhere. -/
theorem approach_put {path : Path} (h : t.approach working path = .ok dir) :
    (t.put p content).approach working path = .ok dir :=
  foldlM_enter_put h

/-- All that a successful writing has seen and done. -/
theorem write_cases {text : String} (h : t.write working text content = .ok t') :
    ∃ path dir name, FileTree.path text = .ok path ∧ t.approach working path = .ok dir ∧
      path.steps.getLast? = some (.into name) ∧ path.slashed = false ∧
      ¬ maxName < name.utf8ByteSize ∧ t.isDirectory (name :: dir) = false ∧
      t' = t.put (name :: dir) content := by
  obtain ⟨path, hpath, h⟩ := exists_of_bind_ok h
  obtain ⟨dir, hdir, h⟩ := exists_of_bind_ok h
  split at h
  · next name hlast =>
    by_cases hslash : path.slashed = true
    · simp [hslash] at h
    · by_cases hlong : maxName < name.utf8ByteSize
      · simp [hslash, hlong] at h
      · by_cases hdirectory : t.isDirectory (name :: dir) = true
        · simp [hslash, hlong, hdirectory] at h
        · have hput : t.put (name :: dir) content = t' := by
            simpa [hslash, hlong, hdirectory] using h
          exact ⟨path, dir, name, hpath, hdir, hlast, by simpa using hslash, hlong,
            by simpa using hdirectory, hput.symm⟩
  · cases h

/-- One file was written: the path leads to it, and everything else is as before. -/
structure Written (t t' : FileTree) (working : Place) (text : String) (content : ByteArray) :
    Prop where
  readable : t'.read working text = .ok content
  directories : t'.directories = t.directories
  place : ∃ p, t'.content? p = some content ∧ ∀ q, q ≠ p → t'.content? q = t.content? q

/-- A file that was written is found again. -/
theorem written_of_write {text : String} (h : t.write working text content = .ok t') :
    Written t t' working text content := by
  obtain ⟨path, dir, name, hpath, hdir, hlast, hslash, hlong, hdirectory, rfl⟩ := write_cases h
  refine ⟨?_, rfl, name :: dir, content?_put_self .., fun q hq => ?_⟩
  · simp [read, hpath, approach_put hdir, hlast, hslash, hlong, hdirectory, bind, Except.bind]
  · exact content?_put_of_ne t hq content

end FileTree

/-- What showing diagnostics leaves alone: the files, and the standard output where the
    picture goes there. -/
structure Memory.Kept (pictureOnOutput : Bool) (m m' : Memory) : Prop where
  tree : m'.tree = m.tree
  out : pictureOnOutput = true → m'.out = m.out

namespace Memory.Kept

theorem refl (b : Bool) (m : Memory) : Kept b m m := ⟨rfl, fun _ => rfl⟩

theorem trans {b : Bool} {m₁ m₂ m₃ : Memory} (h : Kept b m₁ m₂) (h' : Kept b m₂ m₃) :
    Kept b m₁ m₃ :=
  ⟨h'.tree.trans h.tree, fun hb => (h'.out hb).trans (h.out hb)⟩

end Memory.Kept

theorem kept_showDiagnostic (b : Bool) (d : Diagnostic) (m : Memory) :
    m.Kept b ((showDiagnostic Memory.host b d).run m).2 := by
  unfold showDiagnostic
  cases d.severity with
  | info =>
    cases b with
    | false => exact ⟨rfl, nofun⟩
    | true => exact ⟨rfl, fun _ => rfl⟩
  | warning => exact ⟨rfl, fun _ => rfl⟩
  | error => exact ⟨rfl, fun _ => rfl⟩

/-- Showing diagnostics leaves the files alone. -/
theorem kept_showAll (b : Bool) (ds : List Diagnostic) (m : Memory) :
    m.Kept b ((showAll Memory.host b ds).run m).2 := by
  induction ds generalizing m with
  | nil => exact .refl b m
  | cons d rest ih => exact (kept_showDiagnostic b d m).trans (ih _)

theorem run_read (path : String) (m : Memory) :
    (Memory.host.read path).run m = (m.tree.read Memory.working path, m) := rfl

/-- Getting at the program changes nothing. -/
theorem exists_source_run (a : Args) (m : Memory) :
    ∃ text, (source Memory.host a).run m = (text, m) := by
  unfold source
  split
  · exact ⟨_, rfl⟩
  · next file _ _ =>
    rw [StateT.run_bind, run_read]
    cases m.tree.read Memory.working file with
    | error e => exact ⟨_, rfl⟩
    | ok bytes => exact ⟨_, rfl⟩
  · exact ⟨_, rfl⟩

/-- The picture of a program, as it is written. -/
def Args.svg (a : Args) (text : String) : String :=
  Svg.render Svg.defaultPrecision (run a.options text).picture

/-- What a call leaves behind: the code that it ends with, the files and the streams. -/
inductive Delivery (args : List String) (m : Memory) : UInt32 × Memory → Prop where
  /-- The arguments are not accepted. -/
  | refused {m' : Memory} (parsed : Args.parse? args = none) (tree : m'.tree = m.tree)
      (out : m'.out = m.out) : Delivery args m (misuse, m')
  /-- There is no program, or its file cannot be read. -/
  | unread {m' : Memory} {a : Args} {message : String} (parsed : Args.parse? args = some a)
      (source : (source Memory.host a).run m = (.error message, m)) (tree : m'.tree = m.tree)
      (out : m'.out = m.out) : Delivery args m (failure, m')
  /-- The picture goes to the standard output, and nothing else does. -/
  | shown {m' : Memory} {a : Args} {text : String} (parsed : Args.parse? args = some a)
      (source : (source Memory.host a).run m = (.ok text, m))
      (destination : a.destination = none) (tree : m'.tree = m.tree)
      (out : m'.out = m.out ++ a.svg text) : Delivery args m (success, m')
  /-- The picture's file cannot be written. -/
  | unwritten {m' : Memory} {a : Args} {text path : String} {e : FileError}
      (parsed : Args.parse? args = some a) (source : (source Memory.host a).run m = (.ok text, m))
      (destination : a.destination = some path)
      (write : m.tree.write Memory.working path (a.svg text).toUTF8 = .error e)
      (tree : m'.tree = m.tree) : Delivery args m (failure, m')
  /-- The picture is in a file. -/
  | written {m' : Memory} {a : Args} {text path : String} (parsed : Args.parse? args = some a)
      (source : (source Memory.host a).run m = (.ok text, m))
      (destination : a.destination = some path)
      (written : m.tree.Written m'.tree Memory.working path (a.svg text).toUTF8) :
      Delivery args m (success, m')

section

variable {a : Args} {m : Memory} {svg path : String}

theorem run_write_error {e : FileError}
    (h : m.tree.write Memory.working path svg.toUTF8 = .error e) :
    (Memory.host.write path svg).run m = (.error e, m) := by
  simp only [Memory.host, StateT.run, h]

theorem run_write_ok {tree : FileTree}
    (h : m.tree.write Memory.working path svg.toUTF8 = .ok tree) :
    (Memory.host.write path svg).run m = (.ok (), { m with tree }) := by
  simp only [Memory.host, StateT.run, h]

theorem deliver_shown (h : a.destination = none) :
    (deliver Memory.host a svg).run m = (success, { m with out := m.out ++ svg }) := by
  simp only [deliver, h]
  rfl

theorem deliver_unwritten {e : FileError} (h : a.destination = some path)
    (hwrite : m.tree.write Memory.working path svg.toUTF8 = .error e) :
    ∃ m', (deliver Memory.host a svg).run m = (failure, m') ∧ m'.tree = m.tree := by
  simp only [deliver, h]
  rw [StateT.run_bind, run_write_error hwrite]
  exact ⟨_, rfl, rfl⟩

theorem deliver_written {tree : FileTree} (h : a.destination = some path)
    (hwrite : m.tree.write Memory.working path svg.toUTF8 = .ok tree) :
    ∃ m', (deliver Memory.host a svg).run m = (success, m') ∧ m'.tree = tree := by
  simp only [deliver, h]
  rw [StateT.run_bind, run_write_ok hwrite]
  cases a.quiet with
  | false => exact ⟨_, rfl, rfl⟩
  | true => exact ⟨_, rfl, rfl⟩

theorem execute_unread {message : String}
    (h : (source Memory.host a).run m = (.error message, m)) :
    (execute Memory.host a).run m = (failure, { m with err := m.err ++ message }) := by
  unfold execute
  rw [StateT.run_bind, h]
  rfl

/-- A program that was got at is run, its diagnostics are shown, and then the picture is
    delivered. -/
theorem execute_read {text : String} (h : (source Memory.host a).run m = (.ok text, m)) :
    ∃ m', m.Kept a.destination.isNone m' ∧
      (execute Memory.host a).run m = (deliver Memory.host a (a.svg text)).run m' := by
  unfold execute
  rw [StateT.run_bind, h]
  cases a.quiet with
  | false => exact ⟨_, kept_showAll _ (run a.options text).log.entries.toList m, rfl⟩
  | true => exact ⟨m, .refl _ m, rfl⟩

end

/-- Every call ends in one of these ways. -/
theorem session_delivery (args : List String) (m : Memory) :
    Delivery args m ((session Memory.host args).run m) := by
  unfold session
  cases hargs : Args.parse? args with
  | none => exact .refused hargs rfl rfl
  | some a =>
    obtain ⟨found, hsource⟩ := exists_source_run a m
    cases found with
    | error message =>
      rw [execute_unread hsource]
      exact .unread hargs hsource rfl rfl
    | ok text =>
      obtain ⟨m₁, hkept, hrun⟩ := execute_read hsource
      rw [hrun]
      cases hdest : a.destination with
      | none =>
        rw [deliver_shown hdest]
        refine .shown hargs hsource hdest hkept.tree ?_
        rw [hkept.out (by simp [hdest])]
      | some path =>
        cases hwrite : m.tree.write Memory.working path (a.svg text).toUTF8 with
        | error e =>
          obtain ⟨m', hend, htree⟩ := deliver_unwritten hdest (hkept.tree ▸ hwrite)
          rw [hend]
          exact .unwritten hargs hsource hdest hwrite (htree.trans hkept.tree)
        | ok tree =>
          obtain ⟨m', hend, rfl⟩ := deliver_written hdest (hkept.tree ▸ hwrite)
          rw [hend]
          exact .written hargs hsource hdest (FileTree.written_of_write hwrite)

/-- A call that fails has changed no file. -/
theorem tree_session_of_ne_success {args : List String} {m : Memory}
    (h : ((session Memory.host args).run m).1 ≠ success) :
    ((session Memory.host args).run m).2.tree = m.tree := by
  generalize hend : (session Memory.host args).run m = final at h ⊢
  cases hend ▸ session_delivery args m with
  | refused _ tree _ => exact tree
  | unread _ _ tree _ => exact tree
  | shown => exact absurd rfl h
  | unwritten _ _ _ _ tree => exact tree
  | written => exact absurd rfl h

end CommandLine

end TurtleGraphics
