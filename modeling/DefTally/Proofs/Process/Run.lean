import DefTally.Process
import DefTally.Proofs.Count.Counter

/-!
# What a process comes to

A process scans visit by visit and logs as it goes (`settles_scanVisit`), so it ends with the tally
of all findings and the log of all their events (`scan_eq`). The whole program thus comes to
`Invocation.run`, and leaves the file system as it was (`Invocation.perform_eq`).
-/

namespace DefTally

open DefTally.FileSystem DefTally.Json DefTally.Log DefTally.Output DefTally.Text

namespace Log

variable (shows : Event → Bool)

@[simp] theorem linesOf_nil : linesOf shows [] = "" := rfl

theorem linesOf_append (a b : List Event) :
    linesOf shows (a ++ b) = linesOf shows a ++ linesOf shows b := by
  rw [linesOf, List.filter_append, List.map_append, String.join_append]
  rfl

theorem linesOf_singleton (e : Event) : linesOf shows [e] = if shows e then e.line else "" := by
  cases shown : shows e <;> simp [linesOf, shown]

end Log

namespace Process

/-! ## Actions with a counter -/

section Settles

variable {α β : Type} {p q r : Process} {a : α} {b : β}

/-- Whatever the counter was used for before, an action answers `a` and leaves the process as `q`. -/
def Settles (x : Counting α) (p : Process) (a : α) (q : Process) : Prop :=
  ∀ c, ∃ c', x c p = ((a, c'), q)

theorem Settles.pure (a : α) (p : Process) : Settles (return a) p a p := fun c => ⟨c, rfl⟩

theorem Settles.bind {x : Counting α} {f : α → Counting β} (first : Settles x p a q)
    (second : Settles (f a) q b r) : Settles (x >>= f) p b r := by
  intro c
  obtain ⟨c', answered⟩ := first c
  obtain ⟨c'', answered'⟩ := second c'
  have both : (x >>= f) c p = f (x c p).1.1 (x c p).1.2 (x c p).2 := rfl
  exact ⟨c'', by rw [both, answered, answered']⟩

/-- An action that uses no counter. -/
theorem Settles.lift {x : StateM Process α} (answered : x p = (a, q)) : Settles (liftM x) p a q := by
  intro c
  have lifted : (liftM x : Counting α) c p = (((x p).1, c), (x p).2) := rfl
  exact ⟨c, by rw [lifted, answered]⟩

/-- An action with a counter of its own. -/
theorem Settles.run' {x : Counting α} (settles : Settles x p a q) (c : Counter) :
    x.run' c p = (a, q) := by
  obtain ⟨c', answered⟩ := settles c
  have own : x.run' c p = ((x c p).1.1, (x c p).2) := rfl
  rw [own, answered]

end Settles

/-! ## The log -/

/-- The process after events were raised. -/
def told (p : Process) (events : List Event) : Process :=
  { p with stderr := p.stderr ++ linesOf p.shows events }

@[simp] theorem told_fileSystem (p : Process) (events : List Event) :
    (p.told events).fileSystem = p.fileSystem := rfl

@[simp] theorem told_stdout (p : Process) (events : List Event) :
    (p.told events).stdout = p.stdout := rfl

@[simp] theorem told_nil (p : Process) : p.told [] = p := by
  simp [told]

theorem told_append (p : Process) (a b : List Event) : p.told (a ++ b) = (p.told a).told b := by
  simp [told, linesOf_append, String.append_assoc]

theorem tell_eq (e : Event) (p : Process) : tell e p = ((), p.told [e]) := by
  have raised : tell e p = (if p.shows e then writeError e.line else Pure.pure ()) p := rfl
  rw [raised, told, linesOf_singleton]
  cases shown : p.shows e with
  | true => rfl
  | false => simp; rfl

section Scan

variable {p : Process} {path : Path}

theorem settles_tell (e : Event) : Settles (tell e) p () (p.told [e]) := .lift (tell_eq e p)

/-! ## Counting -/

theorem settles_tryCount : Settles (tryCount path) p (p.fileSystem.tryCount path) p := by
  refine .bind (a := p) (q := p) (fun c => ⟨c, rfl⟩) ?_
  rw [FileSystem.tryCount]
  cases p.fileSystem.read path with
  | error cause => exact .pure _ p
  | ok bytes =>
    refine .bind (a := DefTally.countSource bytes) (q := p) (fun c => ?_) (.pure _ p)
    exact ⟨(c.countSource bytes).2, by rw [← c.countSource_fst bytes]; rfl⟩

theorem settles_count (root : Path) : Settles (count path) p (p.fileSystem.count path)
    (p.told [.ofFinding root (.source path (p.fileSystem.tryCount path))]) := by
  refine settles_tryCount.bind ?_
  rw [FileSystem.count]
  cases p.fileSystem.tryCount path with
  | ok n => exact (settles_tell _).bind (.pure n _)
  | error e => exact (settles_tell _).bind (.pure 0 _)

theorem countAlone_eq (root : Path) : countAlone path p = (p.fileSystem.count path,
    p.told [.ofFinding root (.source path (p.fileSystem.tryCount path))]) :=
  (settles_count root).run' _

/-! ## Scanning -/

/-- A tally with the entries of some findings put in, one after the other. -/
def addFindings (root : Path) (tally : Tally) (findings : List Finding) : Tally :=
  (findings.filterMap (Finding.entry? root)).foldl (fun d e => d.insert e.1 e.2) tally

@[simp] theorem addFindings_nil (root : Path) (tally : Tally) : addFindings root tally [] = tally := rfl

theorem addFindings_append (root : Path) (tally : Tally) (a b : List Finding) :
    addFindings root tally (a ++ b) = addFindings root (addFindings root tally a) b := by
  rw [addFindings, List.filterMap_append, List.foldl_append]
  rfl

theorem addFindings_source (root : Path) (tally : Tally) (fs : FileSystem) :
    addFindings root tally [.source path (fs.tryCount path)] =
      tally.insert (root.relativeKey path) (fs.count path) := by
  rw [FileSystem.count]
  cases fs.tryCount path <;> rfl

/-- A visit puts the entry of what is found there into the tally and raises its event. -/
theorem settles_scanVisit (root : Path) (tally : Tally) (visit : Visit) :
    Settles (scanVisit root tally visit) p
      (addFindings root tally (p.fileSystem.finding? visit).toList)
      (p.told ((p.fileSystem.finding? visit).toList.map (.ofFinding root))) := by
  cases visit with
  | unreadable path failure => exact (settles_tell _).bind (.pure _ _)
  | entry path kind =>
    refine .bind (a := p) (q := p) (fun c => ⟨c, rfl⟩) ?_
    rw [finding?]
    cases source : p.fileSystem.isSource path kind with
    | false => simpa using Settles.pure tally p
    | true =>
      refine (settles_count root).bind ?_
      simpa [addFindings_source] using Settles.pure _ _

/-- Visits put the entries of all that is found into the tally and raise their events, in order. -/
theorem settles_scanVisits (root : Path) (visits : List Visit) : ∀ (tally : Tally) (p : Process),
    Settles (scanVisits root tally visits) p
      (addFindings root tally (visits.filterMap p.fileSystem.finding?))
      (p.told ((visits.filterMap p.fileSystem.finding?).map (.ofFinding root))) := by
  induction visits with
  | nil =>
    intro tally p
    rw [List.filterMap_nil, addFindings_nil, List.map_nil, told_nil]
    exact .pure tally p
  | cons visit rest ih =>
    intro tally p
    have onward := ih (addFindings root tally (p.fileSystem.finding? visit).toList)
      (p.told ((p.fileSystem.finding? visit).toList.map (.ofFinding root)))
    have findings : (visit :: rest).filterMap p.fileSystem.finding? =
        (p.fileSystem.finding? visit).toList ++ rest.filterMap p.fileSystem.finding? := by
      rw [List.filterMap_cons]
      cases p.fileSystem.finding? visit <;> rfl
    rw [findings, addFindings_append, List.map_append, told_append]
    exact (settles_scanVisit root tally visit).bind onward

/-- A scan answers as the file system is, and raises the events of its findings. -/
theorem scan_eq (root : Path) (p : Process) : scan root p =
    (p.fileSystem.scan root, p.told ((p.fileSystem.findings root).map (.ofFinding root))) :=
  (settles_scanVisits root _ _ _).run' _

end Scan

/-! ## The program -/

theorem printLine_eq (v : Value) (p : Process) : printLine v p =
    ((writeLine p.stdout v).2, { p with stdout := (writeLine p.stdout v).1 }) := rfl

/-- What a print raises events for. -/
def printEvents (fs : FileSystem) : List Path → List Event
  | [folder] => (fs.findings folder).map (.ofFinding folder)
  | _ => []

theorem bind_eq {α β : Type} {x : StateM Process α} {p q : Process} {a : α} (first : x p = (a, q))
    (f : α → StateM Process β) : (x >>= f) p = f a q := by
  have both : (x >>= f) p = f (x p).1 (x p).2 := rfl
  rw [both, first]

theorem print_eq (folders : List Path) (p : Process) : print folders p =
    ((p.fileSystem.print folders p.stdout).2,
      { p.told (printEvents p.fileSystem folders) with
        stdout := (p.fileSystem.print folders p.stdout).1 }) := by
  match folders with
  | [folder] =>
    simp only [print, FileSystem.print, printEvents]
    rw [bind_eq (scan_eq _ _), bind_eq (printLine_eq _ _)]
    simp only [told]
    rcases writeLine p.stdout (p.fileSystem.scan folder).toValue with ⟨buffer, _ | e⟩ <;> rfl
  | [] | _ :: _ :: _ =>
    simp only [print, FileSystem.print, printEvents]
    rw [bind_eq (printLine_eq _ _), told_nil]
    rcases writeLine p.stdout ErrorReport.folderPathRequired.toValue with ⟨buffer, _ | e⟩ <;> rfl

/-- With the mark before them, all arguments are taken for folders. -/
theorem parse_marked {parse : ArgumentParser} (takes : parse.TakesValues) (commandLine : List Bytes) :
    parse (marked commandLine) = folders? commandLine := takes _ _

theorem parseArguments_eq {parse : ArgumentParser} (takes : parse.TakesValues)
    (commandLine : List Bytes) (p : Process) :
    parseArguments parse commandLine p = (folders commandLine,
      p.told (if folders? commandLine = none then [.argumentsRejected] else [])) := by
  unfold parseArguments folders
  rw [parse_marked takes]
  cases named : folders? commandLine with
  | some folders => simp; rfl
  | none =>
    dsimp only
    rw [bind_eq (tell_eq _ _)]
    rfl

end Process

namespace Invocation

/-- The events of a run are those of reading the command line and those of the print. -/
theorem events_eq (fs : FileSystem) (commandLine : List Bytes) : fs.events commandLine =
    (if folders? commandLine = none then [.argumentsRejected] else []) ++
      Process.printEvents fs (folders commandLine) := by
  unfold FileSystem.events folders
  cases named : folders? commandLine with
  | none => rfl
  | some folders =>
    match folders with
    | [] => rfl
    | [_] => rfl
    | _ :: _ :: _ => rfl

/-- Step by step the program comes to its result, and leaves the file system as it was. -/
theorem perform_eq {parse : ArgumentParser} (takes : parse.TakesValues) (reader : SettingReader)
    (i : Invocation) (fs : FileSystem) (stdout : Sink) :
    i.perform parse reader fs stdout = (i.run reader fs stdout, fs) := by
  let p : Process := ⟨fs, (i.logging reader).shows, ⟨stdout, []⟩, "" ++ (i.logging reader).notice⟩
  have ready : (modify fun p => { p with shows := (i.logging reader).shows } : StateM Process Unit)
      (.start fs stdout) = ((), ⟨fs, (i.logging reader).shows, ⟨stdout, []⟩, ""⟩) := rfl
  have noticed : Process.writeError (i.logging reader).notice
      ⟨fs, (i.logging reader).shows, ⟨stdout, []⟩, ""⟩ = ((), p) := rfl
  have logged : ((p.told (if folders? i.commandLine = none then [.argumentsRejected] else [])).told
      (Process.printEvents fs (folders i.commandLine))).stderr =
        (i.logging reader).log (fs.events i.commandLine) := by
    rw [events_eq, ← Process.told_append]
    exact congrArg (· ++ linesOf _ _) String.empty_append
  unfold perform program run
  rw [Process.bind_eq ready, Process.bind_eq noticed,
    Process.bind_eq (Process.parseArguments_eq takes _ _), Process.bind_eq (Process.print_eq _ _),
    ← logged]
  rcases printed : fs.print (folders i.commandLine) (⟨stdout, []⟩ : LineBuffer Sink) with
    ⟨buffer, e | outcome⟩ <;>
  simp only [Process.told_fileSystem, Process.told_stdout, p, printed] <;> rfl

end Invocation

end DefTally
